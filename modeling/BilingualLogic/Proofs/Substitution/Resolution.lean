import BilingualLogic.Proofs.Names.Occurrence
import BilingualLogic.Proofs.Store.Retraction
import BilingualLogic.Proofs.Substitution.Acyclic

/-!
Full resolution. It keeps the variables that it is inside of on a stack and leaves those alone, so it ends for every
substitution; where no variable leads back to itself, it goes through all the bindings and has nothing left to do.
-/

namespace BilingualLogic

theorem Term.isNormal_bindVars {f : String → Term} (hf : ∀ x, (f x).isNormal = true) (t : Term) :
    (t.bindVars f).isNormal = true :=
  hereditary_true.bindVars hereditary_isNormal (fun _ _ => rfl) hf trivial

namespace Substitution

open Relation

/-- Resolution from binding to binding, inside the variables on the stack. -/
inductive Resolves (s : Substitution) : List String → Term → Term → Prop
  | inside {visiting : List String} {x : String} : x ∈ visiting → Resolves s visiting (.var x) (.var x)
  | unbound {visiting : List String} {x : String} : s.get? x = none → Resolves s visiting (.var x) (.var x)
  | bound {visiting : List String} {x : String} {t u : Term} : x ∉ visiting → s.get? x = some t →
      Resolves s (x :: visiting) t u → Resolves s visiting (.var x) u
  | const (visiting : List String) (v : Value) : Resolves s visiting (.const v) (.const v)
  | list {visiting : List String} {as : List Term} {f : Term → Term} :
      (∀ a ∈ as, Resolves s visiting a (f a)) → Resolves s visiting (.list as) (.list (as.map f))
  | pattern {visiting : List String} {as : List Term} {f : Term → Term} {r u : Term} :
      (∀ a ∈ as, Resolves s visiting a (f a)) → Resolves s visiting r u →
      Resolves s visiting (.pattern as r) (.cons (as.map f) u)

variable {s q : Substitution} {visiting : List String} {t u u' : Term} {x y : String}

theorem Resolves.unique (h : s.Resolves visiting t u) (h' : s.Resolves visiting t u') : u = u' := by
  induction h generalizing u' with
  | inside hx =>
    cases h' with
    | inside _ => rfl
    | unbound _ => rfl
    | bound hnot _ _ => exact absurd hx hnot
  | unbound hx =>
    cases h' with
    | inside _ => rfl
    | unbound _ => rfl
    | bound _ hget _ => cases hx.symm.trans hget
  | bound hnot hget _ ih =>
    cases h' with
    | inside hx => exact absurd hx hnot
    | unbound hx => cases hx.symm.trans hget
    | bound _ hget' h' =>
      cases hget.symm.trans hget'
      exact ih h'
  | const => cases h' with | const => rfl
  | list _ ih =>
    cases h' with
    | list h' => rw [List.map_congr_left fun a ha => ih a ha (h' a ha)]
  | pattern _ _ ih ihr =>
    cases h' with
    | pattern h' hr' => rw [List.map_congr_left fun a ha => ih a ha (h' a ha), ihr hr']

theorem resolves_bindVars {f : String → Term} (h : ∀ x, s.Resolves visiting (.var x) (f x)) (t : Term) :
    s.Resolves visiting t (t.bindVars f) := by
  induction t with
  | var x => simpa [Term.bindVars] using h x
  | const v => simpa [Term.bindVars] using .const visiting v
  | list as ih =>
    rw [Term.bindVars_list]
    exact .list ih
  | pattern as r ih ihr =>
    rw [Term.bindVars_pattern]
    exact .pattern ih ihr

/-- The variables on the stack are those that are no longer bound in `q`, so each one that is put there leaves fewer to
go through. -/
theorem resolves_resolveVar {n : Nat} (hsize : q.size ≤ n)
    (hq : ∀ x, q.get? x = if x ∈ visiting then none else s.get? x) (x : String) :
    s.Resolves visiting (.var x) (resolveVar n q x) := by
  induction n generalizing q visiting x with
  | zero =>
    have hx : q.get? x = none := by
      cases hx : q.get? x with
      | none => rfl
      | some u => exact absurd (size_pos hx) (by omega)
    by_cases hmem : x ∈ visiting
    · exact .inside hmem
    · rw [hq x, if_neg hmem] at hx
      exact .unbound hx
  | succ n ih =>
    rw [resolveVar, hq x]
    by_cases hmem : x ∈ visiting
    · rw [if_pos hmem]
      exact .inside hmem
    · rw [if_neg hmem]
      cases hx : s.get? x with
      | none => exact .unbound hx
      | some u =>
        have hqx : q.get? x = some u := by rw [hq x, if_neg hmem, hx]
        refine .bound hmem hx (resolves_bindVars (ih ?_ ?_) u)
        · have := size_erase hqx
          omega
        · intro y
          rw [get?_erase, hq y]
          by_cases hxy : x = y
          · simp [hxy]
          · simp [hxy, Ne.symm hxy]

theorem resolves_resolve (s : Substitution) (t : Term) : s.Resolves [] t (s.resolve t) :=
  resolves_bindVars (resolves_resolveVar (Nat.le_refl _) (by simp)) t

theorem isNormal_resolveVar (n : Nat) (s : Substitution) (x : String) : (resolveVar n s x).isNormal = true := by
  induction n generalizing s x with
  | zero => rfl
  | succ n ih =>
    rw [resolveVar]
    cases s.get? x with
    | none => rfl
    | some t => exact Term.isNormal_bindVars (ih _) t

/-- Resolution puts every pattern together anew, whatever the terms are like that are bound. -/
theorem isNormal_resolve (s : Substitution) (t : Term) : (s.resolve t).isNormal = true :=
  Term.isNormal_bindVars (isNormal_resolveVar s.size s) t

/-- No variable that the variable leads to leads back to itself. -/
def AcyclicAt (s : Substitution) (x : String) : Prop := ∀ y, ReflTransGen s.Leads x y → ¬ TransGen s.Leads y y

theorem AcyclicAt.leads (h : s.AcyclicAt x) (hxy : s.Leads x y) : s.AcyclicAt y := fun z hyz => h z (.head hxy hyz)

theorem acyclicAt_of_not_leads (h : ∀ y, ¬ s.Leads x y) : s.AcyclicAt x := by
  intro y hxy hyy
  rcases hxy.cases_head with rfl | ⟨z, hxz, -⟩
  · obtain ⟨z, hxz, -⟩ := TransGen.head'_iff.mp hyy
    exact h z hxz
  · exact h z hxz

theorem resolveVar_varsIn_unbound (h : s.AcyclicAt x) {n : Nat} (hn : s.rank x ≤ n)
    (hq : ∀ y, ReflTransGen s.Leads x y → q.get? y = s.get? y) :
    (resolveVar n q x).VarsIn fun y => s.get? y = none := by
  induction n generalizing q x with
  | zero =>
    refine Term.varsIn_var.mpr ?_
    cases hx : s.get? x with
    | none => rfl
    | some t => exact absurd (rank_pos hx) (by omega)
  | succ n ih =>
    rw [resolveVar, hq x .refl]
    cases hx : s.get? x with
    | none => exact Term.varsIn_var.mpr hx
    | some t =>
      refine Term.VarsIn.bindVars (V := s.Leads x) (fun y hy => ⟨t, hx, hy⟩) ?_
      intro y hxy
      have hlt := rank_lt_of_not (h x .refl) hxy
      refine ih (h.leads hxy) (by omega) ?_
      intro z hyz
      -- the way from `y` does not come back to `x`
      have hne : x ≠ z := by
        rintro rfl
        exact h x .refl (.head' hxy hyz)
      rw [get?_erase, if_neg hne]
      exact hq z (.head hxy hyz)

theorem resolve_of_unbound (ht : t.isNormal = true) (h : t.VarsIn fun x => s.get? x = none) : s.resolve t = t := by
  calc s.resolve t
      = t.bindVars .var := by
        apply Term.bindVars_congr
        intro x hx
        cases s.size <;> simp [resolveVar, h x hx]
    _ = t := Term.bindVars_var ht

/-- Resolution gives one result for every substitution, with normal patterns only. Where none of the variables that the
term leads to leads back to itself, the result has no bound variable and is what it is resolved to itself. -/
theorem resolve_final (s : Substitution) (t : Term) :
    (∀ u, s.Resolves [] t u ↔ u = s.resolve t) ∧ (s.resolve t).isNormal = true ∧
      (∀ as r bs, s.resolve r = .list bs → s.resolve (.pattern as r) = .list (as.map s.resolve ++ bs)) ∧
      (t.VarsIn s.AcyclicAt →
        (s.resolve t).VarsIn (fun x => s.get? x = none) ∧ s.resolve (s.resolve t) = s.resolve t) := by
  refine ⟨?_, isNormal_resolve s t, ?_, ?_⟩
  · intro u
    constructor
    · intro h
      exact h.unique (resolves_resolve s t)
    · rintro rfl
      exact resolves_resolve s t
  · intro as r bs hr
    calc s.resolve (.pattern as r)
        = .cons (as.map s.resolve) (s.resolve r) := Term.bindVars_pattern _ as r
      _ = .list (as.map s.resolve ++ bs) := by rw [hr, Term.cons_list]
  · intro h
    have hunbound : (s.resolve t).VarsIn fun x => s.get? x = none :=
      Term.VarsIn.bindVars h fun x hx => resolveVar_varsIn_unbound hx (s.rank_le_size x) fun _ _ => rfl
    exact ⟨hunbound, resolve_of_unbound (isNormal_resolve s t) hunbound⟩

theorem resolve_final_beside_cycle :
    let s := (Substitution.empty.bind "C" (.list [.var "C"])).bind "T" (.list [])
    let t := Term.pattern [.var "X"] (.var "T")
    s.resolve (.var "C") = .list [.var "C"] ∧ s.resolve t = .list [.var "X"] ∧ t.VarsIn s.AcyclicAt ∧
      s.resolve (s.resolve t) = s.resolve t := by
  intro s t
  have hC : s.get? "C" = some (.list [.var "C"]) := rfl
  have hT : s.get? "T" = some (.list []) := rfl
  have hX : s.get? "X" = none := rfl
  have hcyclic : s.Resolves [] (.var "C") (.list [.var "C"]) :=
    .bound (by decide) hC (.list (f := id) (List.forall_mem_singleton.mpr (.inside (by decide))))
  have hplain : s.Resolves [] t (.list [.var "X"]) :=
    .pattern (f := id) (List.forall_mem_singleton.mpr (.unbound hX))
      (.bound (by decide) hT (.list (f := id) (List.forall_mem_nil _)))
  have hacyclic : t.VarsIn s.AcyclicAt := by
    refine Term.varsIn_pattern.mpr ⟨List.forall_mem_singleton.mpr (Term.varsIn_var.mpr ?_), Term.varsIn_var.mpr ?_⟩
    · apply acyclicAt_of_not_leads
      rintro y ⟨u, hu, -⟩
      cases hX.symm.trans hu
    · apply acyclicAt_of_not_leads
      rintro y ⟨u, hu, hy⟩
      cases hT.symm.trans hu
      cases hy with | list ha _ => cases ha
  obtain ⟨hone, -, -, hfinal⟩ := resolve_final s t
  exact ⟨((resolve_final s (.var "C")).1 _ |>.mp hcyclic).symm, ((hone _).mp hplain).symm, hacyclic,
    (hfinal hacyclic).2⟩

end Substitution
end BilingualLogic
