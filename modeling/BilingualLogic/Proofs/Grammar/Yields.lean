import BilingualLogic.Proofs.Grammar.Inversion

/-!
What holds of all that an expression of the grammar yields where it is spaced: `Yields` follows the expression, as
`Reads` follows it for a given text.
-/

namespace BilingualLogic.Language

open Text Grammar

/-- A place at which nothing is passed over. -/
def AtGap (c : Cursor) : Prop := Blank.skipText c.rest = c.rest

theorem atGap_skip (c : Cursor) : AtGap (grammar.skipIf true c) := by
  rw [AtGap, skipIf_rest, gap_true, Blank.skipText_skipText]

theorem AtGap.skip {c : Cursor} (h : AtGap c) : grammar.skipIf true c = c := by
  have hskip := skipIf_gap true c.rest c.position
  rw [gap_true, h] at hskip
  exact hskip

def Yields (ρ : Grammar.Readers grammar) {α : Type} (e : Expr α) (Q : α → Prop) : Prop :=
  ∀ c x d, AtGap c → evalExpr grammar ρ true e c = some (x, d) → Q x

variable {ρ : Grammar.Readers grammar} {α β : Type}

theorem Yields.imp {e : Expr α} {Q Q' : α → Prop} (h : Yields ρ e Q) (hQ : ∀ x, Q x → Q' x) : Yields ρ e Q' :=
  fun c x d hc hx => hQ x (h c x d hc hx)

theorem yields_any {e : Expr α} : Yields ρ e fun _ => True := fun _ _ _ _ _ => trivial

theorem Yields.map {f : α → β} {e : Expr α} {Q : β → Prop} (h : Yields ρ e fun x => Q (f x)) : Yields ρ (f <$> e) Q := by
  intro c y d hc hy
  obtain ⟨x, hx, rfl⟩ := map_eq_some.mp hy
  exact h c x d hc hx

theorem Yields.ap {f : Expr (α → β)} {e : Expr α} {R : α → Prop} {Q : β → Prop}
    (h : Yields ρ f fun g => ∀ x, R x → Q (g x)) (he : Yields ρ e R) : Yields ρ (f <*> e) Q := by
  intro c y d hc hy
  obtain ⟨g, c', x, hg, hx, rfl⟩ := ap_eq_some.mp hy
  exact h c g c' hc hg x (he _ x d (atGap_skip c') hx)

theorem Yields.left {e₁ : Expr α} {e₂ : Expr β} {Q : α → Prop} (h : Yields ρ e₁ Q) : Yields ρ (e₁ <* e₂) Q := by
  intro c x d hc hx
  obtain ⟨c', -, hx, -⟩ := left_eq_some.mp hx
  exact h c x c' hc hx

theorem Yields.right {e₁ : Expr α} {e₂ : Expr β} {Q : β → Prop} (h : Yields ρ e₂ Q) : Yields ρ (e₁ *> e₂) Q := by
  intro c x d _ hx
  obtain ⟨-, c', -, hx⟩ := right_eq_some.mp hx
  exact h _ x d (atGap_skip c') hx

theorem Yields.or {e₁ e₂ : Expr α} {Q : α → Prop} (h₁ : Yields ρ e₁ Q) (h₂ : Yields ρ e₂ Q) : Yields ρ (e₁ <|> e₂) Q := by
  intro c x d hc hx
  rcases or_eq_some.mp hx with hx | ⟨-, hx⟩
  · exact h₁ c x d hc hx
  · exact h₂ c x d hc hx

theorem Yields.option {e : Expr α} {Q : α → Prop} (h : Yields ρ e Q) : Yields ρ (.option e) fun o => ∀ x ∈ o, Q x := by
  intro c o d hc ho
  rcases option_eq_some.mp ho with ⟨x, hx, rfl⟩ | ⟨-, rfl, -⟩
  · rintro _ ⟨⟩
    exact h c x d hc hx
  · rintro _ ⟨⟩

theorem Yields.placed {e : Expr (Span → α)} {Q : α → Prop} (h : Yields ρ e fun f => ∀ s, Q (f s)) :
    Yields ρ (Language.placed e) Q := by
  intro c x d hc hx
  obtain ⟨f, hf, rfl⟩ := placed_eq_some.mp hx
  exact h c f d hc hf _

theorem Yields.many {e : Expr α} {Q : α → Prop} (h : Yields ρ e Q) : Yields ρ (.many e) fun xs => ∀ x ∈ xs, Q x := by
  intro c xs d hc hxs x hx
  obtain ⟨c', d', hx, rfl | ⟨c'', rfl⟩⟩ := many_eq_some hxs x hx
  · exact h _ x d' hc hx
  · exact h _ x d' (atGap_skip c'') hx

theorem Yields.separated {e : Expr α} {separator : Expr β} {Q : α → Prop} (h : Yields ρ e Q) :
    Yields ρ (Peg.separated e separator) fun xs => xs ≠ [] ∧ ∀ x ∈ xs, Q x := by
  refine Yields.ap (Yields.map (h.imp fun x hx => ?_)) (Yields.many (Yields.right h))
  intro xs hxs
  exact ⟨by simp, by simpa using ⟨hx, hxs⟩⟩

theorem many_stops {e : Expr α} (hread : ∀ c, Shortens false c (evalExpr grammar ρ true e c)) {c d : Cursor} {xs : List α}
    (hc : AtGap c) (h : evalExpr grammar ρ true (.many e) c = some (xs, d)) :
    evalExpr grammar ρ true e (grammar.skipIf true d) = none ∧ d.rest.length ≤ c.rest.length := by
  have hskip (c : Cursor) : (grammar.skipIf true c).rest.length ≤ c.rest.length := by
    rw [skipIf_rest]
    exact gap_length true c.rest
  simp only [evalExpr, evalMany, Option.some.injEq] at h
  cases hr : evalExpr grammar ρ true e c with
  | none =>
    rw [hr] at h
    obtain ⟨-, rfl⟩ := Prod.mk.inj h
    exact ⟨by rw [hc.skip]; exact hr, Nat.le_refl _⟩
  | some r =>
    obtain ⟨x, c'⟩ := r
    rw [hr] at h
    obtain ⟨-, rfl⟩ := Prod.mk.inj h
    have hlt := (hread c x c' hr).1
    obtain ⟨hnone, hlen⟩ := evalMore_stops hskip hread (Nat.le_refl c'.rest.length)
    exact ⟨hnone, Nat.le_trans hlen hlt⟩

end BilingualLogic.Language
