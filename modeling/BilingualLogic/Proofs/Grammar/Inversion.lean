import BilingualLogic.Proofs.Grammar.Reads

/-!
What must have been read where an expression of the grammar yields a value, whatever reads the rules in it.
-/

namespace BilingualLogic.Language

open Text Grammar

variable {ρ : Grammar.Readers grammar} {spaced : Bool} {α β : Type} {c d : Cursor}

theorem map_eq_some {f : α → β} {e : Expr α} {y : β} : evalExpr grammar ρ spaced (f <$> e) c = some (y, d) ↔
    ∃ x, evalExpr grammar ρ spaced e c = some (x, d) ∧ f x = y := by
  change (evalExpr grammar ρ spaced e c).map _ = _ ↔ _
  rw [Option.map_eq_some_iff]
  constructor
  · rintro ⟨⟨x, d'⟩, hx, h⟩
    obtain ⟨rfl, rfl⟩ := Prod.mk.inj h
    exact ⟨x, hx, rfl⟩
  · rintro ⟨x, hx, rfl⟩
    exact ⟨(x, d), hx, rfl⟩

theorem seq_eq_some {e₁ : Expr α} {e₂ : Expr β} {z : α × β} :
    evalExpr grammar ρ spaced (.seq e₁ e₂) c = some (z, d) ↔ ∃ c', evalExpr grammar ρ spaced e₁ c = some (z.1, c') ∧
      evalExpr grammar ρ spaced e₂ (grammar.skipIf spaced c') = some (z.2, d) := by
  simp only [evalExpr]
  constructor
  · intro h
    split at h
    · next x c' hx =>
      obtain ⟨⟨y, d'⟩, hy, h⟩ := Option.map_eq_some_iff.mp h
      obtain ⟨rfl, rfl⟩ := Prod.mk.inj h
      exact ⟨c', hx, hy⟩
    · cases h
  · rintro ⟨c', hx, hy⟩
    rw [hx]
    dsimp only
    rw [hy]
    rfl

theorem ap_eq_some {f : Expr (α → β)} {e : Expr α} {y : β} : evalExpr grammar ρ spaced (f <*> e) c = some (y, d) ↔
    ∃ g c' x, evalExpr grammar ρ spaced f c = some (g, c') ∧
      evalExpr grammar ρ spaced e (grammar.skipIf spaced c') = some (x, d) ∧ g x = y := by
  refine (map_eq_some (f := fun r : (α → β) × α => r.1 r.2) (e := .seq f e)).trans ?_
  constructor
  · rintro ⟨⟨g, x⟩, h, rfl⟩
    obtain ⟨c', hg, hx⟩ := seq_eq_some.mp h
    exact ⟨g, c', x, hg, hx, rfl⟩
  · rintro ⟨g, c', x, hg, hx, rfl⟩
    exact ⟨(g, x), seq_eq_some.mpr ⟨c', hg, hx⟩, rfl⟩

theorem left_eq_some {e₁ : Expr α} {e₂ : Expr β} {x : α} : evalExpr grammar ρ spaced (e₁ <* e₂) c = some (x, d) ↔
    ∃ c' y, evalExpr grammar ρ spaced e₁ c = some (x, c') ∧
      evalExpr grammar ρ spaced e₂ (grammar.skipIf spaced c') = some (y, d) := by
  refine (map_eq_some (f := Prod.fst) (e := .seq e₁ e₂)).trans ?_
  constructor
  · rintro ⟨⟨x, y⟩, h, rfl⟩
    obtain ⟨c', hx, hy⟩ := seq_eq_some.mp h
    exact ⟨c', y, hx, hy⟩
  · rintro ⟨c', y, hx, hy⟩
    exact ⟨(x, y), seq_eq_some.mpr ⟨c', hx, hy⟩, rfl⟩

theorem right_eq_some {e₁ : Expr α} {e₂ : Expr β} {y : β} : evalExpr grammar ρ spaced (e₁ *> e₂) c = some (y, d) ↔
    ∃ x c', evalExpr grammar ρ spaced e₁ c = some (x, c') ∧
      evalExpr grammar ρ spaced e₂ (grammar.skipIf spaced c') = some (y, d) := by
  refine (map_eq_some (f := Prod.snd) (e := .seq e₁ e₂)).trans ?_
  constructor
  · rintro ⟨⟨x, y⟩, h, rfl⟩
    obtain ⟨c', hx, hy⟩ := seq_eq_some.mp h
    exact ⟨x, c', hx, hy⟩
  · rintro ⟨x, c', hx, hy⟩
    exact ⟨(x, y), seq_eq_some.mpr ⟨c', hx, hy⟩, rfl⟩

theorem or_eq_some {e₁ e₂ : Expr α} {x : α} : evalExpr grammar ρ spaced (e₁ <|> e₂) c = some (x, d) ↔
    evalExpr grammar ρ spaced e₁ c = some (x, d) ∨
      evalExpr grammar ρ spaced e₁ c = none ∧ evalExpr grammar ρ spaced e₂ c = some (x, d) := by
  rw [evalExpr_or]
  cases evalExpr grammar ρ spaced e₁ c with
  | none => simp
  | some r => simp

theorem option_eq_some {e : Expr α} {o : Option α} : evalExpr grammar ρ spaced (.option e) c = some (o, d) ↔
    (∃ x, evalExpr grammar ρ spaced e c = some (x, d) ∧ o = some x) ∨
      evalExpr grammar ρ spaced e c = none ∧ o = none ∧ d = c := by
  simp only [evalExpr]
  cases evalExpr grammar ρ spaced e c with
  | none => simp [eq_comm]
  | some r =>
    obtain ⟨y, d'⟩ := r
    constructor
    · intro h
      cases h
      exact Or.inl ⟨y, rfl, rfl⟩
    · rintro (⟨x, h, rfl⟩ | ⟨h, -⟩)
      · cases h
        rfl
      · cases h

theorem placed_eq_some {e : Expr (Span → α)} {x : α} : evalExpr grammar ρ spaced (Language.placed e) c = some (x, d) ↔
    ∃ f, evalExpr grammar ρ spaced e c = some (f, d) ∧ f ⟨c.position, d.position.offset⟩ = x := by
  change (evalExpr grammar ρ spaced e c).map _ = _ ↔ _
  rw [Option.map_eq_some_iff]
  constructor
  · rintro ⟨⟨f, d'⟩, hf, h⟩
    cases h
    exact ⟨f, hf, rfl⟩
  · rintro ⟨f, hf, rfl⟩
    exact ⟨(f, d), hf, rfl⟩

theorem char_eq_some {accepts : Char → Bool} {x : Char} (h : evalExpr grammar ρ spaced (.char accepts) c = some (x, d)) :
    c.rest = x :: d.rest ∧ accepts x = true := by
  obtain ⟨rest, p⟩ := c
  cases rest with
  | nil => cases h
  | cons y rest =>
    simp only [evalExpr] at h
    split at h
    · next hy =>
      cases h
      exact ⟨rfl, hy⟩
    · cases h

theorem oneOf_eq_some {texts : List String} {t : String} (h : evalExpr grammar ρ spaced (.oneOf texts) c = some (t, d)) :
    c.rest = t.toList ++ d.rest ∧ t ∈ texts := by
  induction texts with
  | nil => cases h
  | cons u us ih =>
    simp only [evalExpr, readOneOf] at h ih
    split at h
    · next c' hc' =>
      cases h
      exact ⟨readText_some hc', List.mem_cons_self⟩
    · exact ⟨(ih h).1, List.mem_cons_of_mem u (ih h).2⟩

/-- Each item of a repetition was read from the beginning or from behind a skip. -/
theorem many_eq_some {e : Expr α} {xs : List α} (h : evalExpr grammar ρ spaced (.many e) c = some (xs, d)) :
    ∀ x ∈ xs, ∃ c' d', evalExpr grammar ρ spaced e c' = some (x, d') ∧
      (c' = c ∨ ∃ c'', c' = grammar.skipIf spaced c'') := by
  have more (n : Nat) (c : Cursor) : ∀ x ∈ (evalMore (evalExpr grammar ρ spaced e) (grammar.skipIf spaced) n c).1,
      ∃ c' d', evalExpr grammar ρ spaced e (grammar.skipIf spaced c') = some (x, d') := by
    induction n generalizing c with
    | zero => simp [evalMore]
    | succ n ih =>
      intro x hx
      rw [evalMore] at hx
      split at hx
      · next y d' hy =>
        rcases List.mem_cons.mp hx with rfl | hx
        · exact ⟨c, d', hy⟩
        · exact ih d' x hx
      · cases hx
  intro x hx
  simp only [evalExpr, evalMany, Option.some.injEq] at h
  split at h
  · next y d' hy =>
    obtain ⟨rfl, -⟩ := Prod.mk.inj h
    rcases List.mem_cons.mp hx with rfl | hx
    · exact ⟨c, d', hy, Or.inl rfl⟩
    · obtain ⟨c', d'', hc'⟩ := more _ _ x hx
      exact ⟨_, d'', hc', Or.inr ⟨c', rfl⟩⟩
  · obtain ⟨rfl, -⟩ := Prod.mk.inj h
    cases hx

theorem Reads.eq_some {e : Expr α} {o : List Char} {Q : α → Prop} (h : Reads spaced e c.rest o Q) {x : α}
    (hx : eval spaced e c = some (x, d)) : gap spaced d.rest = gap spaced o ∧ Q x := by
  obtain ⟨y, d', hy, hd, hQ⟩ := h c.position
  cases hx.symm.trans hy
  exact ⟨hd, hQ⟩

theorem Fails.ne_some {e : Expr α} (h : Fails spaced e c.rest) {x : α} (hx : eval spaced e c = some (x, d)) : False := by
  cases hx.symm.trans (h c.position)

end BilingualLogic.Language
