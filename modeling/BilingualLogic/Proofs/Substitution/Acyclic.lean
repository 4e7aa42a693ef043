import BilingualLogic.Proofs.Substitution.Solves
import BilingualLogic.Proofs.Term.Instance
import Mathlib.Data.Finset.Card
import Mathlib.Logic.Relation

/-!
Substitutions without cycles. No variable is resolved inside itself there, so what the variables resolve to makes every
binding an equation, whatever the variables stand for that are left.
-/

namespace BilingualLogic.Substitution

open Relation

/-- The second variable occurs in the value of the first. -/
def Leads (s : Substitution) (x y : String) : Prop := ∃ t, s.get? x = some t ∧ t.Occurs y

def Acyclic (s : Substitution) : Prop := ∀ x, ¬ TransGen s.Leads x x

section Rank

open scoped Classical

variable {s : Substitution}

theorem mem_keys_iff (x : String) : x ∈ s.bindings.keys ↔ ∃ t, s.get? x = some t := by
  rw [Std.TreeMap.mem_keys, get?, ← Option.isSome_iff_exists, Std.TreeMap.isSome_getElem?_iff_mem]

/-- How many bound variables the variable leads to, itself included. -/
noncomputable def rank (s : Substitution) (x : String) : Nat :=
  (s.bindings.keys.toFinset.filter (ReflTransGen s.Leads x)).card

theorem rank_le_size (s : Substitution) (x : String) : s.rank x ≤ s.size := by
  calc s.rank x ≤ s.bindings.keys.toFinset.card := Finset.card_filter_le _ _
    _ ≤ s.bindings.keys.length := List.toFinset_card_le _
    _ = s.size := Std.TreeMap.length_keys

theorem rank_pos {x : String} {t : Term} (hx : s.get? x = some t) : 0 < s.rank x := by
  apply Finset.card_pos.mpr
  refine ⟨x, Finset.mem_filter.mpr ⟨?_, .refl⟩⟩
  rw [List.mem_toFinset, mem_keys_iff]
  exact ⟨t, hx⟩

theorem rank_lt_of_not {x y : String} (h : ¬ TransGen s.Leads x x) (hxy : s.Leads x y) : s.rank y < s.rank x := by
  obtain ⟨t, hx, -⟩ := id hxy
  apply Finset.card_lt_card
  rw [Finset.ssubset_iff_of_subset]
  · refine ⟨x, Finset.mem_filter.mpr ⟨?_, .refl⟩, ?_⟩
    · rw [List.mem_toFinset, mem_keys_iff]
      exact ⟨t, hx⟩
    · intro hmem
      exact h (.head' hxy (Finset.mem_filter.mp hmem).2)
  · intro z hz
    obtain ⟨hkey, hyz⟩ := Finset.mem_filter.mp hz
    exact Finset.mem_filter.mpr ⟨hkey, .head hxy hyz⟩

theorem rank_lt (h : s.Acyclic) {x y : String} (hxy : s.Leads x y) : s.rank y < s.rank x := rank_lt_of_not (h x) hxy

theorem resolveVar_eq (h : s.Acyclic) {x : String} {n n' : Nat} {q q' : Substitution} (hn : s.rank x ≤ n)
    (hn' : s.rank x ≤ n') (hq : ∀ y, s.rank y ≤ s.rank x → q.get? y = s.get? y)
    (hq' : ∀ y, s.rank y ≤ s.rank x → q'.get? y = s.get? y) : resolveVar n q x = resolveVar n' q' x := by
  induction hk : s.rank x using Nat.strongRecOn generalizing x n n' q q' with
  | _ k ih =>
    have hqx := hq x (Nat.le_refl _)
    have hqx' := hq' x (Nat.le_refl _)
    cases hx : s.get? x with
    | none =>
      rw [hx] at hqx hqx'
      have unbound {p : Substitution} (hp : p.get? x = none) (m : Nat) : resolveVar m p x = .var x := by
        cases m <;> simp [resolveVar, hp]
      rw [unbound hqx, unbound hqx']
    | some t =>
      have hpos := rank_pos hx
      obtain ⟨m, rfl⟩ : ∃ m, n = m + 1 := ⟨n - 1, by omega⟩
      obtain ⟨m', rfl⟩ : ∃ m', n' = m' + 1 := ⟨n' - 1, by omega⟩
      rw [resolveVar, resolveVar, hqx, hqx', hx]
      apply Term.bindVars_congr
      intro y hy
      have hlt : s.rank y < s.rank x := rank_lt h ⟨t, hx, hy⟩
      have erased {p : Substitution} (hp : ∀ z, s.rank z ≤ s.rank x → p.get? z = s.get? z) (z : String)
          (hz : s.rank z ≤ s.rank y) : (p.erase x).get? z = s.get? z := by
        have hne : x ≠ z := by
          rintro rfl
          omega
        rw [get?_erase, if_neg hne]
        exact hp z (by omega)
      exact ih (s.rank y) (by omega) (by omega) (by omega) (erased hq) (erased hq') rfl

end Rank

theorem resolve_var (s : Substitution) (x : String) : s.resolve (.var x) = resolveVar s.size s x := by
  simp [resolve, Term.bindVars]

theorem Acyclic.resolve_bound {s : Substitution} (h : s.Acyclic) {x : String} {t : Term} (hx : s.get? x = some t) :
    s.resolve (.var x) = s.resolve t := by
  obtain ⟨n, hn⟩ : ∃ n, s.size = n + 1 := ⟨s.size - 1, by have := size_pos hx; omega⟩
  calc s.resolve (.var x)
      = t.bindVars (resolveVar n (s.erase x)) := by rw [resolve_var, hn, resolveVar, hx]
    _ = t.bindVars (resolveVar s.size s) := by
      apply Term.bindVars_congr
      intro y hy
      have hlt : s.rank y < s.rank x := rank_lt h ⟨t, hx, hy⟩
      have hle := rank_le_size s x
      have herased (z : String) (hz : s.rank z ≤ s.rank y) : (s.erase x).get? z = s.get? z := by
        have hne : x ≠ z := by
          rintro rfl
          omega
        rw [get?_erase, if_neg hne]
      exact resolveVar_eq h (by omega) (by omega) herased fun _ _ => rfl

theorem Acyclic.solves {s : Substitution} (h : s.Acyclic) (ρ : String → Datum) :
    s.Solves fun x => (s.resolve (.var x)).eval ρ := by
  intro x t hx
  simp only [h.resolve_bound hx, resolve_var]
  exact Term.eval_bindVars ρ _ t

theorem All.resolve {P : Term → Prop} (hP : Hereditary P) (hvar : ∀ x, P (.var x)) {s : Substitution} (hs : s.All P)
    {t : Term} (ht : P t) : P (s.resolve t) := by
  have value (n : Nat) : ∀ {q : Substitution}, q.All P → ∀ x, P (resolveVar n q x) := by
    induction n with
    | zero => exact fun _ x => hvar x
    | succ n ih =>
      intro q hq x
      rw [resolveVar]
      cases hx : q.get? x with
      | none => exact hvar x
      | some u =>
        refine hP.bindVars hP (fun _ h => h) (ih ?_) (hq x u hx).2
        intro y v hy
        rw [get?_erase] at hy
        split at hy
        · cases hy
        · exact hq y v hy
  exact hP.bindVars hP (fun _ h => h) (value s.size hs) ht

end BilingualLogic.Substitution
