import BilingualLogic.Proofs.Substitution.Walk
import BilingualLogic.Proofs.Term.Eval

/-!
Solutions of a substitution: environments in which every variable that is bound has the datum of its value. Neither a
walk nor resolving changes the datum of a term in a solution.
-/

namespace BilingualLogic.Substitution

/-- Every variable that is bound has the datum of its value. -/
def Solves (ρ : String → Datum) (s : Substitution) : Prop := ∀ x t, s.get? x = some t → ρ x = t.eval ρ

variable {ρ : String → Datum} {s : Substitution}

theorem Solves.follow (h : s.Solves ρ) (n : Nat) (t : Term) : (s.follow n t).eval ρ = t.eval ρ := by
  induction n generalizing t with
  | zero => rfl
  | succ n ih =>
    cases t with
    | var x =>
      simp only [Substitution.follow]
      cases hx : s.get? x with
      | none => rfl
      | some u =>
        calc (s.follow n u).eval ρ = u.eval ρ := ih u
          _ = ρ x := (h x u hx).symm
          _ = (Term.var x).eval ρ := (Term.eval_var ρ x).symm
    | _ => rfl

theorem Solves.walk (h : s.Solves ρ) (t : Term) : (s.walk t).eval ρ = t.eval ρ := h.follow s.size t

theorem solves_bind {x : String} (hx : s.get? x = none) (u : Term) :
    (s.bind x u).Solves ρ ↔ s.Solves ρ ∧ ρ x = u.eval ρ := by
  constructor
  · intro h
    refine ⟨fun y t hy => h y t ?_, h x u (get?_bind_self s x u)⟩
    rw [get?_bind_of_ne]
    · exact hy
    · rintro rfl
      rw [hx] at hy
      cases hy
  · rintro ⟨h, hxu⟩ y t hy
    rw [get?_bind] at hy
    split at hy
    · next hxy =>
      cases hy
      rw [← hxy]
      exact hxu
    · exact h y t hy

theorem solves_empty (ρ : String → Datum) : Solves ρ ∅ := by
  intro x t h
  rw [get?_empty] at h
  cases h

theorem Solves.erase (h : s.Solves ρ) (x : String) : (s.erase x).Solves ρ := by
  intro y t hy
  rw [get?_erase] at hy
  split at hy
  · cases hy
  · exact h y t hy

theorem Solves.resolveVar (h : s.Solves ρ) (n : Nat) (x : String) : (resolveVar n s x).eval ρ = ρ x := by
  induction n generalizing s x with
  | zero => exact Term.eval_var ρ x
  | succ n ih =>
    rw [Substitution.resolveVar]
    cases hx : s.get? x with
    | none => exact Term.eval_var ρ x
    | some t =>
      calc (t.bindVars (Substitution.resolveVar n (s.erase x))).eval ρ
          = t.eval fun y => (Substitution.resolveVar n (s.erase x) y).eval ρ := Term.eval_bindVars ρ _ t
        _ = t.eval ρ := by simp only [ih (h.erase x)]
        _ = ρ x := (h x t hx).symm

theorem Solves.resolve (h : s.Solves ρ) (t : Term) : (s.resolve t).eval ρ = t.eval ρ := by
  rw [Substitution.resolve, Term.eval_bindVars]
  simp only [h.resolveVar]

end BilingualLogic.Substitution
