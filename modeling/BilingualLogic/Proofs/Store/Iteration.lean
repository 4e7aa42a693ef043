import BilingualLogic.Proofs.Store.Order
import Mathlib.Data.List.Nodup

/-!
Going through the clauses of a predicate one by one while the store changes in between. Each clause is asked for by the
number of the one before it, and that one may be gone by then. No clause comes twice, and none is left out that is there
from the first question to the last.
-/

namespace BilingualLogic.Store

inductive Changes : Store → Store → Prop
  | add {s : Store} (c : Clause) : Changes s (s.add c)
  | retractHead {n : Nat} {s s' : Store} {p : Predicate} {removed : Bool} :
    s.retractHead n p = some (removed, s') → Changes s s'
  | retractClause {s : Store} (c : Clause) : Changes s (s.retractClause c).2
  | clear {s : Store} : Changes s s.clear
  | clearNamed {s : Store} (name : String) : Changes s (s.clearNamed name).2

theorem Changes.built {s s' : Store} (h : Changes s s') (hs : s.Built) : s'.Built := by
  cases h with
  | add c => exact hs.add c
  | retractHead h => exact hs.retractHead h
  | retractClause c => exact hs.retractClause c
  | clear => exact hs.clear
  | clearNamed name => exact hs.clearNamed name

section Ordered

variable {s : Store} {k : Key}

theorem Ordered.eq_of_id (hs : s.Ordered) {c d : StoredClause} (hc : c ∈ s.storedClauses k)
    (hd : d ∈ s.storedClauses k) (h : c.id = d.id) : c = d := by
  have hne : (s.storedClauses k).Pairwise (·.id ≠ ·.id) := (hs.storedClauses k).1.imp Nat.ne_of_lt
  exact List.inj_on_of_nodup_map (List.pairwise_map.mpr hne) hc hd h

theorem Ordered.mem_clausesAfter (hs : s.Ordered) {after : Option Nat} {c : StoredClause} :
    c ∈ s.clausesAfter k after ↔ c ∈ s.storedClauses k ∧ ∀ id, after = some id → id < c.id := by
  cases after with
  | none => simp [clausesAfter]
  | some id =>
    have hp := (hs.storedClauses k).1
    simp only [clausesAfter, Option.some.injEq, forall_eq']
    generalize s.storedClauses k = ds at hp ⊢
    induction ds with
    | nil => simp
    | cons d ds ih =>
      obtain ⟨hd, hp⟩ := List.pairwise_cons.mp hp
      by_cases hid : d.id ≤ id
      · rw [List.dropWhile_cons_of_pos (by simpa using hid), List.mem_cons]
        refine (ih hp).trans ⟨fun h => ⟨Or.inr h.1, h.2⟩, ?_⟩
        rintro ⟨rfl | hc, hlt⟩
        · omega
        · exact ⟨hc, hlt⟩
      · rw [List.dropWhile_cons_of_neg (by simpa using hid)]
        refine ⟨fun hc => ⟨hc, ?_⟩, And.left⟩
        rcases List.mem_cons.mp hc with rfl | hc
        · omega
        · have := hd c hc
          omega

theorem Ordered.nextClause_some (hs : s.Ordered) {after : Option Nat} {c : StoredClause}
    (h : s.nextClause k after = some c) : c ∈ s.storedClauses k ∧ (∀ id, after = some id → id < c.id) ∧
      ∀ d ∈ s.storedClauses k, (∀ id, after = some id → id < d.id) → c.id ≤ d.id := by
  obtain ⟨cs, hcs⟩ := List.head?_eq_some_iff.mp h
  have hc := hs.mem_clausesAfter.mp (hcs ▸ List.mem_cons_self)
  refine ⟨hc.1, hc.2, fun d hd hafter => ?_⟩
  have hsub : (s.clausesAfter k after).Sublist (s.storedClauses k) := by
    cases after with
    | none => exact List.Sublist.refl _
    | some id => exact List.dropWhile_sublist _
  have hp := hcs ▸ (hs.storedClauses k).1.sublist hsub
  have hd := hcs ▸ hs.mem_clausesAfter.mpr ⟨hd, hafter⟩
  rcases List.mem_cons.mp hd with rfl | hd
  · exact Nat.le_refl _
  · exact Nat.le_of_lt ((List.pairwise_cons.mp hp).1 d hd)

theorem Ordered.nextClause_none (hs : s.Ordered) {after : Option Nat} (h : s.nextClause k after = none)
    {c : StoredClause} (hc : c ∈ s.storedClauses k) : ∃ id, after = some id ∧ c.id ≤ id := by
  have hempty : s.clausesAfter k after = [] := List.head?_eq_none_iff.mp h
  have hnot : c ∉ s.clausesAfter k after := by simp [hempty]
  rw [hs.mem_clausesAfter] at hnot
  cases after with
  | none => exact absurd ⟨hc, by simp⟩ hnot
  | some id =>
    refine ⟨id, rfl, ?_⟩
    simpa [hc] using hnot

end Ordered

/-- The number of the clause that was given out last. -/
def lastId (given : List (Store × StoredClause)) : Option Nat := given.getLast?.map (·.2.id)

/-- From a first store on, the clauses of a predicate are asked for one after the other while the store changes. The
stores are all those on the way, the present one first; every clause comes with the store that it was given out of. -/
inductive Iteration (k : Key) (first : Store) : List Store → Store → List (Store × StoredClause) → Prop
  | start : Iteration k first [first] first []
  | change {ss : List Store} {s s' : Store} {given : List (Store × StoredClause)} :
    Iteration k first ss s given → Changes s s' → Iteration k first (s' :: ss) s' given
  | pull {ss : List Store} {s : Store} {given : List (Store × StoredClause)} {c : StoredClause} :
    Iteration k first ss s given → s.nextClause k (lastId given) = some c →
      Iteration k first ss s (given ++ [(s, c)])

namespace Iteration

variable {k : Key} {first s : Store} {ss : List Store} {given : List (Store × StoredClause)}

theorem mem (h : Iteration k first ss s given) : s ∈ ss := by
  induction h with
  | start => exact List.mem_singleton.mpr rfl
  | change _ _ _ => exact List.mem_cons_self
  | pull _ _ ih => exact ih

theorem built (h : Iteration k first ss s given) (hb : first.Built) : s.Built := by
  induction h with
  | start => exact hb
  | change _ hs ih => exact hs.built ih
  | pull _ _ ih => exact ih

theorem lastId_append (given : List (Store × StoredClause)) (s : Store) (c : StoredClause) :
    lastId (given ++ [(s, c)]) = some c.id := by
  simp [lastId]

/-- What holds of the clauses that were given out: their numbers grow, the last is the greatest, and all that has been
there throughout and is not given out yet has a greater number. -/
structure Orderly (k : Key) (ss : List Store) (given : List (Store × StoredClause)) : Prop where
  increasing : (given.map (·.2.id)).Pairwise (· < ·)
  live : ∀ g ∈ given, g.1 ∈ ss ∧ g.2 ∈ g.1.storedClauses k
  last : ∀ g ∈ given, ∀ id, lastId given = some id → g.2.id ≤ id
  passed : ∀ c, (∀ t ∈ ss, c ∈ t.storedClauses k) → ∀ id, lastId given = some id → c.id ≤ id → ∃ t, (t, c) ∈ given

theorem orderly (h : Iteration k first ss s given) (hb : first.Built) : Orderly k ss given := by
  induction h with
  | start => constructor <;> simp [lastId]
  | change _ _ ih =>
    refine ⟨ih.increasing, fun g hg => ?_, ih.last, fun c hc => ?_⟩
    · exact ⟨List.mem_cons_of_mem _ (ih.live g hg).1, (ih.live g hg).2⟩
    · exact ih.passed c fun t ht => hc t (List.mem_cons_of_mem _ ht)
  | @pull ss s given c h hn ih =>
    have ho := (h.built hb).ordered
    obtain ⟨hmem, hafter, hleast⟩ := ho.nextClause_some hn
    -- the clause comes behind all that were given out before
    have hlt (g) (hg : g ∈ given) : g.2.id < c.id := by
      cases hl : lastId given with
      | none =>
        obtain rfl : given = [] := by simpa [lastId] using hl
        cases hg
      | some id => exact Nat.lt_of_le_of_lt (ih.last g hg id hl) (hafter id hl)
    constructor
    · rw [List.map_append, List.pairwise_append]
      refine ⟨ih.increasing, List.pairwise_singleton _ _, ?_⟩
      simpa using fun a t d hd hid => hid ▸ hlt (t, d) hd
    · intro g hg
      rcases List.mem_append.mp hg with hg | hg
      · exact ih.live g hg
      · obtain rfl := List.mem_singleton.mp hg
        exact ⟨h.mem, hmem⟩
    · intro g hg id hid
      obtain rfl : c.id = id := by simpa [lastId_append] using hid
      rcases List.mem_append.mp hg with hg | hg
      · exact Nat.le_of_lt (hlt g hg)
      · obtain rfl := List.mem_singleton.mp hg
        exact Nat.le_refl _
    · intro d hd id hid hle
      obtain rfl : c.id = id := by simpa [lastId_append] using hid
      by_cases hold : ∃ id, lastId given = some id ∧ d.id ≤ id
      · obtain ⟨id, hid, hle⟩ := hold
        obtain ⟨t, ht⟩ := ih.passed d hd id hid hle
        exact ⟨t, List.mem_append_left _ ht⟩
      · -- the clause that is given out is the first of those that are left, so it is this one
        have hge : c.id ≤ d.id := by
          refine hleast d (hd s h.mem) fun id hid => ?_
          have : ¬ d.id ≤ id := fun hle => hold ⟨id, hid, hle⟩
          omega
        obtain rfl := ho.eq_of_id (hd s h.mem) hmem (Nat.le_antisymm hle hge)
        exact ⟨s, List.mem_append_right _ (List.mem_singleton.mpr rfl)⟩

end Iteration

/-- Whatever changes there are between the questions, the clauses come by growing numbers, each of them out of the store
as it is then; at the end every clause that was there all the time has come once; and no question stays without an
answer while there is a clause of a greater number, be the one that it names still there or not. -/
theorem nextClause_iterates {k : Key} {first s : Store} {ss : List Store} {given : List (Store × StoredClause)}
    (hb : first.Built) (h : Iteration k first ss s given) :
    (given.map (·.2.id)).Pairwise (· < ·) ∧
    (∀ g ∈ given, g.1 ∈ ss ∧ g.2 ∈ g.1.storedClauses k) ∧
    (s.nextClause k (lastId given) = none → ∀ c, (∀ t ∈ ss, c ∈ t.storedClauses k) →
      (∃ t, (t, c) ∈ given) ∧ (given.map (·.2.id)).count c.id = 1) ∧
    ∀ after, s.nextClause k after = none → ∀ c ∈ s.storedClauses k, ∃ id, after = some id ∧ c.id ≤ id := by
  have ho := (h.built hb).ordered
  have hi := h.orderly hb
  refine ⟨hi.increasing, hi.live, ?_, fun after hn c hc => ho.nextClause_none hn hc⟩
  intro hn c hc
  obtain ⟨id, hid, hle⟩ := ho.nextClause_none hn (hc s h.mem)
  obtain ⟨t, ht⟩ := hi.passed c hc id hid hle
  refine ⟨⟨t, ht⟩, ?_⟩
  have hnodup : (given.map (·.2.id)).Nodup := hi.increasing.imp Nat.ne_of_lt
  exact List.count_eq_one_of_mem hnodup (List.mem_map.mpr ⟨(t, c), ht, rfl⟩)

/-- The clauses `p :- a` and `p :- b`. -/
def alternatives : Store :=
  (Store.empty.add ⟨⟨"p", []⟩, [.call ⟨"a", []⟩]⟩).add ⟨⟨"p", []⟩, [.call ⟨"b", []⟩]⟩

/-- The first clause is given out and removed and another one is added, before the rest of them is asked for. -/
theorem nextClause_iterates_removed :
    let k : Key := ⟨"p", 0⟩
    let second : StoredClause := ⟨1, ⟨⟨"p", []⟩, [.call ⟨"b", []⟩]⟩⟩
    ∃ ss s given, Iteration k alternatives ss s given ∧ s.nextClause k (lastId given) = none ∧
      given.map (·.2.id) = [0, 1, 2] ∧ (∀ t ∈ ss, second ∈ t.storedClauses k) ∧ ∃ t, (t, second) ∈ given := by
  intro k second
  let removed : Store := alternatives.replaceClauses k [second]
  have h₁ : Iteration k alternatives [alternatives] alternatives _ := .pull .start rfl
  have h₂ : Iteration k alternatives [removed, alternatives] removed _ :=
    h₁.change (.retractHead (n := 9) (p := ⟨"p", []⟩) rfl)
  have h₃ := h₂.change (.add ⟨⟨"p", []⟩, []⟩)
  have h₄ := (h₃.pull (c := second) rfl).pull (c := ⟨2, ⟨⟨"p", []⟩, []⟩⟩) rfl
  have hlive : ∀ t ∈ [removed.add ⟨⟨"p", []⟩, []⟩, removed, alternatives], second ∈ t.storedClauses k := by
    simp only [List.forall_mem_cons]
    exact ⟨List.mem_cons_self, List.mem_cons_self, List.mem_cons_of_mem _ List.mem_cons_self, by simp⟩
  exact ⟨_, _, _, h₄, rfl, rfl, hlive, ((nextClause_iterates (.add _ (.add _ .empty)) h₄).2.2.1 rfl _ hlive).1⟩

end BilingualLogic.Store
