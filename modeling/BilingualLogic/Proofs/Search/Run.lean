import BilingualLogic.Proofs.Search.Turn

/-!
Runs: turns of one effort, one after the other, counted. Whatever is pulled from a search is what a run gives, so what
is to be shown of all answers goes by induction on the number of turns.
-/

namespace BilingualLogic.Search

/-- Takes turns up to the end of the search, or up to the first answer. -/
def run (limits : Limits) (n : Nat) (once : Bool) : Nat → World → Search → Bounded (List Substitution × World × Search)
  | 0, _, _ => none
  | k + 1, w, s =>
    (turn limits n w s).bind fun
      | .goes w s => run limits n once k w s
      | .stops none w s => some ([], w, s)
      | .stops (some b) w s =>
        (run limits n once k w (if once then { s with current := none, choices := .empty } else s)).map
          fun (as, w, s) => (b :: as, w, s)

section Pull

variable {limits : Limits} {n m : Nat} {once : Bool} {w w' : World} {s s' : Search}

theorem run_of_next_none (once : Bool) (hnm : n ≤ m + 1) (h : next limits n w s = some (none, w', s')) :
    ∃ k, run limits m once k w s = some ([], w', s') := by
  induction n generalizing w s with
  | zero => cases h
  | succ n ih =>
    rw [next_succ] at h
    obtain ⟨t, ht, h⟩ := Option.bind_eq_some_iff.mp h
    have ht := (turn_le limits (Nat.le_of_succ_le_succ hnm) w s).eq_some ht
    cases t with
    | goes w₁ s₁ =>
      obtain ⟨k, hk⟩ := ih (by omega) h
      exact ⟨k + 1, by rw [run, ht]; exact hk⟩
    | stops answer w₁ s₁ =>
      cases h
      exact ⟨1, by rw [run, ht]; rfl⟩

theorem run_of_next_some {b : Substitution} {k : Nat} {r : List Substitution × World × Search} (hnm : n ≤ m + 1)
    (h : next limits n w s = some (some b, w', s'))
    (hr : run limits m once k w' (if once then { s' with current := none, choices := .empty } else s') = some r) :
    ∃ k, run limits m once k w s = some (b :: r.1, r.2) := by
  induction n generalizing w s with
  | zero => cases h
  | succ n ih =>
    rw [next_succ] at h
    obtain ⟨t, ht, h⟩ := Option.bind_eq_some_iff.mp h
    have ht := (turn_le limits (Nat.le_of_succ_le_succ hnm) w s).eq_some ht
    cases t with
    | goes w₁ s₁ =>
      obtain ⟨k, hk⟩ := ih (by omega) h
      exact ⟨k + 1, by rw [run, ht]; exact hk⟩
    | stops answer w₁ s₁ =>
      cases h
      refine ⟨k + 1, ?_⟩
      rw [run, ht]
      simp only [Option.bind_some, hr, Option.map_some]

theorem run_of_drain {r : List Substitution × World × Search} (hnm : n ≤ m + 2) (h : drain limits n w s = some r) :
    ∃ k, run limits m false k w s = some r := by
  induction n generalizing w s r with
  | zero => cases h
  | succ n ih =>
    rw [drain] at h
    obtain ⟨⟨answer, w₁, s₁⟩, hn, h⟩ := Option.bind_eq_some_iff.mp h
    cases answer with
    | none =>
      cases h
      exact run_of_next_none false (by omega) hn
    | some b =>
      obtain ⟨q, hq, rfl⟩ := Option.map_eq_some_iff.mp h
      obtain ⟨k, hk⟩ := ih (by omega) hq
      exact run_of_next_some (by omega) hn hk

end Pull

end BilingualLogic.Search
