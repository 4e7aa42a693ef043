import BilingualLogic.Term

/-!
Induction over terms: the items of lists and patterns are smaller than the whole.
-/

namespace BilingualLogic.Term

@[elab_as_elim, induction_eliminator]
theorem induct {P : Term → Prop} (var : ∀ x, P (.var x)) (const : ∀ v, P (.const v))
    (list : ∀ as, (∀ a ∈ as, P a) → P (.list as))
    (pattern : ∀ as r, (∀ a ∈ as, P a) → P r → P (.pattern as r)) : ∀ t, P t
  | .var x => var x
  | .const v => const v
  | .list as => list as fun a _ => induct var const list pattern a
  | .pattern as r =>
    pattern as r (fun a _ => induct var const list pattern a) (induct var const list pattern r)

theorem groundAll_iff (as : List Term) : groundAll as = true ↔ ∀ a ∈ as, a.isGround = true := by
  induction as with
  | nil => simp [groundAll]
  | cons a as ih => simp [groundAll, ih]

theorem bindVars_list (f : String → Term) (as : List Term) :
    (list as).bindVars f = list (as.map (bindVars f)) := by
  simp [bindVars]

theorem bindVars_pattern (f : String → Term) (as : List Term) (r : Term) :
    (pattern as r).bindVars f = cons (as.map (bindVars f)) (r.bindVars f) := by
  simp [bindVars]

end BilingualLogic.Term
