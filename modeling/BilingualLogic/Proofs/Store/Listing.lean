import BilingualLogic.Proofs.Store.Contents
import Mathlib.Algebra.BigOperators.Group.List.Basic
import Mathlib.Algebra.GroupWithZero.Nat
import Mathlib.Data.List.Flatten
import Mathlib.Data.List.Nodup

/-!
The books of a store. What is listed and counted is told from the log of the changes: predicates stand in the order of
their first definitions since they were cleared, and a table that lost all its clauses has its place in that order too.
-/

namespace BilingualLogic.Store

inductive Edit where
  | add (c : Clause)
  | retractHead (p : Predicate)
  | retractClause (c : Clause)
  | clear
  | clearNamed (name : String)

namespace Edit

inductive Gives : Edit → Store → Store → Prop
  | add (c : Clause) (s : Store) : Gives (.add c) s (s.add c)
  | retractHead {n : Nat} {s s' : Store} {p : Predicate} {removed : Bool} :
    s.retractHead n p = some (removed, s') → Gives (.retractHead p) s s'
  | retractClause (c : Clause) (s : Store) : Gives (.retractClause c) s (s.retractClause c).2
  | clear (s : Store) : Gives .clear s s.clear
  | clearNamed (name : String) (s : Store) : Gives (.clearNamed name) s (s.clearNamed name).2

def Defines (k : Key) : Edit → Prop
  | add c => c.head.key = k
  | _ => False

def Clears (k : Key) : Edit → Prop
  | clear => True
  | clearNamed name => k.name = name
  | _ => False

theorem Gives.built {e : Edit} {s s' : Store} (h : e.Gives s s') (hs : s.Built) : s'.Built := by
  cases h with
  | add c => exact hs.add c
  | retractHead h => exact hs.retractHead h
  | retractClause c => exact hs.retractClause c
  | clear => exact hs.clear
  | clearNamed name => exact hs.clearNamed name

theorem Gives.all {R : Clause → Prop} {e : Edit} {s s' : Store} (h : e.Gives s s') (hs : s.All R)
    (hadded : ∀ c, e = .add c → R c) : s'.All R := by
  cases h with
  | add c => exact hs.add (hadded c rfl)
  | retractHead h => exact hs.retractHead h
  | retractClause c => exact hs.retractClause c
  | clear => exact List.forall_mem_nil _
  | clearNamed name => exact hs.clearNamed name

end Edit

/-- The edits lead from the empty store to the given one. -/
inductive Logged : List Edit → Store → Prop
  | nil : Logged [] ∅
  | snoc {es : List Edit} {e : Edit} {s s' : Store} : Logged es s → e.Gives s s' → Logged (es ++ [e]) s'

section Log

variable {es : List Edit} {e : Edit} {k l : Key} {i j : Nat} {s s' : Store}

theorem Logged.built (h : Logged es s) : s.Built := by
  induction h with
  | nil => exact .empty
  | snoc _ he ih => exact he.built ih

/-- The edit at the given place defines the predicate, and it is not cleared any more. -/
def Standing (es : List Edit) (k : Key) (i : Nat) : Prop :=
  (∃ e, es[i]? = some e ∧ e.Defines k) ∧ ∀ j e, i < j → es[j]? = some e → ¬ e.Clears k

/-- The predicate is first defined there since it was cleared, if it was. -/
def FirstDefined (es : List Edit) (k : Key) (i : Nat) : Prop := Standing es k i ∧ ∀ j, Standing es k j → i ≤ j

def DefinedBefore (es : List Edit) (k l : Key) : Prop := ∃ i j, FirstDefined es k i ∧ FirstDefined es l j ∧ i < j

theorem Standing.lt_length (h : Standing es k i) : i < es.length := by
  obtain ⟨⟨e, he, -⟩, -⟩ := h
  exact (List.getElem?_eq_some_iff.mp he).1

theorem standing_append : Standing (es ++ [e]) k i ↔
    Standing es k i ∧ ¬ e.Clears k ∨ i = es.length ∧ e.Defines k := by
  have hlast : (es ++ [e])[es.length]? = some e := List.getElem?_concat_length
  have hold {j : Nat} (hj : j < es.length) : (es ++ [e])[j]? = es[j]? := List.getElem?_append_left hj
  constructor
  · rintro ⟨⟨d, hd, hdefines⟩, hkept⟩
    by_cases hi : i < es.length
    · refine .inl ⟨⟨⟨d, hold hi ▸ hd, hdefines⟩, ?_⟩, hkept _ _ hi hlast⟩
      intro j c hij hc
      have hj := (List.getElem?_eq_some_iff.mp hc).1
      exact hkept j c hij ((hold hj).trans hc)
    · have hlength := (List.getElem?_eq_some_iff.mp hd).1
      rw [List.length_append, List.length_singleton] at hlength
      obtain rfl : i = es.length := by omega
      exact .inr ⟨rfl, Option.some.inj (hd.symm.trans hlast) ▸ hdefines⟩
  · rintro (⟨hstands, hclear⟩ | ⟨rfl, hdefines⟩)
    · obtain ⟨⟨d, hd, hdefines⟩, hkept⟩ := id hstands
      refine ⟨⟨d, (hold hstands.lt_length).trans hd, hdefines⟩, ?_⟩
      intro j c hij hc
      by_cases hj : j < es.length
      · exact hkept j c hij (hold hj ▸ hc)
      · have hlength := (List.getElem?_eq_some_iff.mp hc).1
        rw [List.length_append, List.length_singleton] at hlength
        obtain rfl : j = es.length := by omega
        exact Option.some.inj (hc.symm.trans hlast) ▸ hclear
    · refine ⟨⟨e, hlast, hdefines⟩, ?_⟩
      intro j c hj hc
      have hlength := (List.getElem?_eq_some_iff.mp hc).1
      rw [List.length_append, List.length_singleton] at hlength
      omega

theorem FirstDefined.append (h : FirstDefined es k i) (hclear : ¬ e.Clears k) : FirstDefined (es ++ [e]) k i := by
  refine ⟨standing_append.mpr (.inl ⟨h.1, hclear⟩), ?_⟩
  intro j hj
  rcases standing_append.mp hj with ⟨hj, -⟩ | ⟨rfl, -⟩
  · exact h.2 j hj
  · exact Nat.le_of_lt h.1.lt_length

theorem DefinedBefore.append (h : DefinedBefore es k l) (hk : ¬ e.Clears k) (hl : ¬ e.Clears l) :
    DefinedBefore (es ++ [e]) k l := by
  obtain ⟨i, j, hi, hj, hlt⟩ := h
  exact ⟨i, j, hi.append hk, hj.append hl, hlt⟩

theorem firstDefined_last (h : ∀ i, ¬ Standing es k i) (he : e.Defines k) : FirstDefined (es ++ [e]) k es.length := by
  refine ⟨standing_append.mpr (.inr ⟨rfl, he⟩), ?_⟩
  intro j hj
  rcases standing_append.mp hj with ⟨hj, -⟩ | ⟨rfl, -⟩
  · exact absurd hj (h j)
  · exact Nat.le_refl _

/-- The predicates are those that were defined and not cleared, in the order of their first definitions. -/
structure InOrder (es : List Edit) (ks : List Key) : Prop where
  defined : ∀ k ∈ ks, ∃ i, FirstDefined es k i
  complete : ∀ k i, Standing es k i → k ∈ ks
  sorted : ks.Pairwise (DefinedBefore es)

variable {ks : List Key}

theorem InOrder.retain (h : InOrder es ks) (hadd : ∀ k, ¬ e.Defines k) {p : Key → Bool}
    (hp : ∀ k, p k = true ↔ ¬ e.Clears k) : InOrder (es ++ [e]) (ks.filter p) where
  defined := by
    intro k hk
    rw [List.mem_filter, hp] at hk
    obtain ⟨i, hi⟩ := h.defined k hk.1
    exact ⟨i, hi.append hk.2⟩
  complete := by
    intro k i hi
    rcases standing_append.mp hi with ⟨hi, hclear⟩ | ⟨-, hdefines⟩
    · exact List.mem_filter.mpr ⟨h.complete k i hi, (hp k).mpr hclear⟩
    · exact absurd hdefines (hadd k)
  sorted := by
    refine (h.sorted.sublist List.filter_sublist).imp_of_mem ?_
    intro k l hk hl hkl
    exact hkl.append ((hp k).mp (List.mem_filter.mp hk).2) ((hp l).mp (List.mem_filter.mp hl).2)

theorem InOrder.retract (h : InOrder es ks) (hadd : ∀ k, ¬ e.Defines k) (hclear : ∀ k, ¬ e.Clears k) :
    InOrder (es ++ [e]) ks := by
  have hretain := h.retain hadd (p := fun _ => true) (by simpa using hclear)
  rwa [List.filter_true] at hretain

/-- A new predicate is put behind all others, one that has a place keeps it. -/
theorem InOrder.add (h : InOrder es ks) (c : Clause) : InOrder (es ++ [.add c])
    (if c.head.key ∈ ks then ks else ks ++ [c.head.key]) := by
  have hclear (k : Key) : ¬ (Edit.add c).Clears k := id
  have hdefined (k : Key) (hk : k ∈ ks) : ∃ i, FirstDefined (es ++ [.add c]) k i :=
    (h.defined k hk).imp fun i hi => hi.append (hclear k)
  have hsorted : ks.Pairwise (DefinedBefore (es ++ [.add c])) :=
    h.sorted.imp fun hkl => hkl.append (hclear _) (hclear _)
  by_cases hmem : c.head.key ∈ ks
  · rw [if_pos hmem]
    refine ⟨hdefined, ?_, hsorted⟩
    intro k i hi
    rcases standing_append.mp hi with ⟨hi, -⟩ | ⟨-, hk⟩
    · exact h.complete k i hi
    · cases hk
      exact hmem
  · rw [if_neg hmem]
    have hnew : FirstDefined (es ++ [.add c]) c.head.key es.length :=
      firstDefined_last (fun i hi => hmem (h.complete _ i hi)) rfl
    refine ⟨?_, ?_, ?_⟩
    · intro k hk
      rcases List.mem_append.mp hk with hk | hk
      · exact hdefined k hk
      · cases List.mem_singleton.mp hk
        exact ⟨_, hnew⟩
    · intro k i hi
      rcases standing_append.mp hi with ⟨hi, -⟩ | ⟨-, hk⟩
      · exact List.mem_append_left _ (h.complete k i hi)
      · cases hk
        exact List.mem_append_right _ (List.mem_singleton.mpr rfl)
    · refine List.pairwise_append.mpr ⟨hsorted, List.pairwise_singleton _ _, ?_⟩
      intro k hk l hl
      cases List.mem_singleton.mp hl
      obtain ⟨i, hi⟩ := h.defined k hk
      exact ⟨i, es.length, hi.append (hclear k), hnew, hi.1.lt_length⟩

theorem Logged.inOrder (h : Logged es s) : InOrder es (s.tables.map (·.key)) := by
  induction h with
  | nil => exact ⟨fun _ hk => (nomatch hk), fun k i hi => absurd hi.lt_length (Nat.not_lt_zero i), .nil⟩
  | @snoc es e s s' _ he ih =>
    cases he with
    | add c =>
      rw [Store.add, keys_insert]
      exact ih.add c
    | @retractHead n _ _ p removed h =>
      have hkept := ih.retract (e := .retractHead p) (fun _ => id) (fun _ => id)
      obtain rfl | ⟨cs, -, rfl⟩ := retractHead_cases h
      · exact hkept
      · rw [keys_replaceClauses]
        exact hkept
    | retractClause c =>
      have hkept := ih.retract (e := .retractClause c) (fun _ => id) (fun _ => id)
      obtain heq | ⟨cs, -, heq⟩ := retractClause_cases s c <;> rw [heq]
      · exact hkept
      · rw [keys_replaceClauses]
        exact hkept
    | clear =>
      have hretain := ih.retain (e := .clear) (fun _ => id) (p := fun _ => false) (by simp [Edit.Clears])
      rwa [List.filter_false] at hretain
    | clearNamed name =>
      have hretain := ih.retain (e := .clearNamed name) (fun _ => id) (p := fun k => ! decide (k.name = name))
        (by simp [Edit.Clears])
      simp only [Store.clearNamed, List.partition_eq_filter_filter]
      rwa [List.filter_map] at hretain

end Log

section Numbers

variable {s s' : Store}

theorem perm_insert (c : StoredClause) (ts : List Table) :
    ((insert c ts).flatMap (·.clauses)).Perm (c :: ts.flatMap (·.clauses)) := by
  induction ts with
  | nil => exact .refl _
  | cons t ts ih =>
    rw [insert]
    split
    · simp only [List.flatMap_cons, List.append_assoc, List.singleton_append]
      exact List.perm_middle
    · simp only [List.flatMap_cons]
      exact (ih.append_left t.clauses).trans List.perm_middle

theorem Filed.sublist_replaceClauses (h : s.Filed) {k : Key} {cs : List StoredClause}
    (hcs : cs.Sublist (s.storedClauses k)) :
    ((s.replaceClauses k cs).tables.flatMap (·.clauses)).Sublist (s.tables.flatMap (·.clauses)) := by
  rw [Store.replaceClauses, List.flatMap_map]
  refine List.Sublist.flatMap_right s.tables fun t ht => ?_
  split
  · next hk =>
    subst hk
    rwa [h.storedClauses_of_mem ht] at hcs
  · exact .refl _

/-- No two clauses have one number, and the next number is greater than theirs. -/
def Numbered (s : Store) : Prop :=
  ((s.tables.flatMap (·.clauses)).map (·.id)).Nodup ∧ ∀ c ∈ s.tables.flatMap (·.clauses), c.id < s.nextId

theorem Numbered.sublist (h : s.Numbered) (hid : s'.nextId = s.nextId)
    (hs : (s'.tables.flatMap (·.clauses)).Sublist (s.tables.flatMap (·.clauses))) : s'.Numbered :=
  ⟨h.1.sublist (hs.map _), fun c hc => hid ▸ h.2 c (hs.subset hc)⟩

theorem Numbered.add (h : s.Numbered) (c : Clause) : (s.add c).Numbered := by
  have hperm := perm_insert ⟨s.nextId, c⟩ s.tables
  constructor
  · refine (hperm.map (·.id)).nodup_iff.mpr (List.nodup_cons.mpr ⟨?_, h.1⟩)
    intro hmem
    obtain ⟨d, hd, hid⟩ := List.mem_map.mp hmem
    exact Nat.ne_of_lt (h.2 d hd) hid
  · intro d hd
    rcases List.mem_cons.mp (hperm.mem_iff.mp hd) with rfl | hd
    · exact Nat.lt_succ_self s.nextId
    · exact Nat.lt_succ_of_lt (h.2 d hd)

theorem Built.numbered (h : s.Built) : s.Numbered := by
  induction h with
  | empty => exact ⟨.nil, fun _ hc => (nomatch hc)⟩
  | add c _ ih => exact ih.add c
  | retractHead hs h ih =>
    obtain rfl | ⟨cs, hcs, rfl⟩ := retractHead_cases h
    · exact ih
    · exact ih.sublist rfl (hs.filed.sublist_replaceClauses hcs)
  | @retractClause s c hs ih =>
    obtain heq | ⟨cs, hcs, heq⟩ := retractClause_cases s c <;> rw [heq]
    · exact ih
    · exact ih.sublist rfl (hs.filed.sublist_replaceClauses hcs)
  | clear _ _ => exact ⟨.nil, fun _ hc => (nomatch hc)⟩
  | clearNamed name _ ih =>
    refine ih.sublist rfl ?_
    simp only [Store.clearNamed, List.partition_eq_filter_filter]
    exact List.filter_sublist.flatMap _

end Numbers

section Counts

variable {s : Store}

theorem Filed.clauses_of_mem (h : s.Filed) {t : Table} (ht : t ∈ s.tables) :
    s.clauses t.key = t.clauses.map (·.clause) := by
  rw [clauses, h.storedClauses_of_mem ht]

theorem Filed.mem_keys (h : s.Filed) {k : Key} : k ∈ s.keys ↔ s.clauses k ≠ [] := by
  constructor
  · intro hk
    obtain ⟨t, ht, rfl⟩ := List.mem_map.mp hk
    obtain ⟨ht, hne⟩ := List.mem_filter.mp ht
    rw [h.clauses_of_mem ht]
    simpa using hne
  · intro hne
    cases hfind : s.tables.find? (·.key = k) with
    | none => exact absurd (by rw [clauses, storedClauses, hfind]; rfl) hne
    | some t =>
      have ht := List.mem_of_find?_eq_some hfind
      obtain rfl : t.key = k := by simpa using List.find?_some hfind
      rw [h.clauses_of_mem ht] at hne
      exact List.mem_map_of_mem (List.mem_filter.mpr ⟨ht, by simpa using hne⟩)

theorem flatMap_defined (s : Store) : s.defined.flatMap (·.clauses) = s.tables.flatMap (·.clauses) := by
  unfold defined
  induction s.tables with
  | nil => rfl
  | cons t ts ih =>
    rw [List.filter_cons]
    split
    · rw [List.flatMap_cons, List.flatMap_cons, ih]
    · next hempty =>
      have hnil : t.clauses = [] := by simpa using hempty
      rw [List.flatMap_cons, hnil, List.nil_append, ih]

theorem Filed.summary_of_mem (h : s.Filed) {m : Summary} (hm : m ∈ s.summary) :
    m.facts = (s.clauses m.key).countP (·.isFact) ∧ m.facts + m.rules = (s.clauses m.key).length := by
  obtain ⟨t, ht, rfl⟩ := List.mem_map.mp hm
  have ht := (List.mem_filter.mp ht).1
  have hle := List.length_filter_le (·.clause.isFact) t.clauses
  dsimp only
  rw [h.clauses_of_mem ht, List.countP_map, List.countP_eq_length_filter, List.length_map]
  refine ⟨rfl, ?_⟩
  omega

theorem sum_summary (s : Store) : (s.summary.map (·.facts)).sum + (s.summary.map (·.rules)).sum = s.size := by
  rw [size, ← flatMap_defined, List.length_flatMap, ← List.sum_map_add, summary, List.map_map]
  congr 1
  refine List.map_congr_left fun t _ => ?_
  have hle := List.length_filter_le (·.clause.isFact) t.clauses
  dsimp only [Function.comp_apply]
  omega

end Counts

/-- The predicates that have clauses are listed once and in the order of their definitions, each clause stands with its
predicate under a number of its own, and the counts are those of the clauses. -/
structure Kept (es : List Edit) (s : Store) : Prop where
  heads : ∀ t ∈ s.tables, ∀ c ∈ t.clauses, c.clause.head.key = t.key
  distinct : ((s.tables.flatMap (·.clauses)).map (·.id)).Nodup
  below : ∀ c ∈ s.tables.flatMap (·.clauses), c.id < s.nextId
  keys : ∀ k, k ∈ s.keys ↔ s.clauses k ≠ []
  once : s.keys.Nodup
  defined : ∀ k ∈ s.keys, ∃ i, FirstDefined es k i
  sorted : s.keys.Pairwise (DefinedBefore es)
  summarized : s.summary.map (·.key) = s.keys
  counts : ∀ m ∈ s.summary, m.facts = (s.clauses m.key).countP (·.isFact) ∧
    m.facts + m.rules = (s.clauses m.key).length
  total : (s.summary.map (·.facts)).sum + (s.summary.map (·.rules)).sum = s.size

end BilingualLogic.Store
