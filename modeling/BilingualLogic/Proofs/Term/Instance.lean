import BilingualLogic.Proofs.Term.WellFormed

/-!
Instances of terms. Variables are replaced one time after the other as they are by one replacement, an instance depends
on the variables of the term only, and it has the properties that the terms have which the variables get.
-/

namespace BilingualLogic

theorem hereditary_true : Hereditary fun _ => True where
  list := by simp
  pattern _ := by simp
  cons _ _ := trivial

theorem hereditary_isGround : Hereditary fun t => t.isGround = true where
  list := by
    intro as
    rw [Term.isGround, Term.groundAll_iff]
  pattern h := by
    rw [Term.isGround, Bool.and_eq_true, Term.groundAll_iff] at h
    exact h
  cons := by
    intro as r h hr
    refine Term.cons_induct (P := fun t => t.isGround = true) hr ?_ ?_ ?_
    · rintro bs rfl
      rw [Term.isGround, Term.groundAll_iff] at hr ⊢
      exact List.forall_mem_append.mpr ⟨h, hr⟩
    · rintro bs q rfl
      rw [Term.isGround, Bool.and_eq_true, Term.groundAll_iff] at hr ⊢
      exact ⟨List.forall_mem_append.mpr ⟨h, hr.1⟩, hr.2⟩
    · intro _ _
      rw [Term.isGround, Bool.and_eq_true, Term.groundAll_iff]
      exact ⟨h, hr⟩

theorem Hereditary.bindVars {P Q : Term → Prop} (hQ : Hereditary Q) (hP : Hereditary P)
    (hconst : ∀ v, Q (.const v) → P (.const v)) {f : String → Term} (hf : ∀ x, P (f x)) {t : Term} (ht : Q t) :
    P (t.bindVars f) := by
  induction t with
  | var x => simpa [Term.bindVars] using hf x
  | const v => simpa [Term.bindVars] using hconst v ht
  | list as ih =>
    rw [Term.bindVars_list, hP.list]
    intro b hb
    obtain ⟨a, ha, rfl⟩ := List.mem_map.mp hb
    exact ih a ha (hQ.list.mp ht a ha)
  | pattern as r ih ihr =>
    obtain ⟨has, hr⟩ := hQ.pattern ht
    rw [Term.bindVars_pattern]
    refine hP.cons ?_ (ihr hr)
    intro b hb
    obtain ⟨a, ha, rfl⟩ := List.mem_map.mp hb
    exact ih a ha (has a ha)

namespace Term

theorem cons_append (as bs : List Term) (r : Term) : cons (as ++ bs) r = cons as (cons bs r) := by
  cases as with
  | nil => rfl
  | cons a as => cases bs <;> cases r <;> simp [cons]

theorem cons_list (as bs : List Term) : cons as (list bs) = list (as ++ bs) := by
  cases as <;> rfl

theorem bindVars_cons (f : String → Term) (as : List Term) (r : Term) :
    (cons as r).bindVars f = cons (as.map (bindVars f)) (r.bindVars f) := by
  cases as with
  | nil => rfl
  | cons a as =>
    cases r with
    | list bs =>
      rw [cons_list, bindVars_list, bindVars_list, cons_list, List.map_append]
    | pattern bs q =>
      change (pattern (a :: as ++ bs) q).bindVars f = _
      rw [bindVars_pattern, bindVars_pattern, List.map_append, cons_append]
    | var x => exact bindVars_pattern f (a :: as) (.var x)
    | const v => exact bindVars_pattern f (a :: as) (.const v)

theorem bindVars_bindVars (f g : String → Term) (t : Term) :
    (t.bindVars f).bindVars g = t.bindVars fun x => (f x).bindVars g := by
  induction t with
  | var x => simp [bindVars]
  | const v => simp [bindVars]
  | list as ih =>
    rw [bindVars_list, bindVars_list, bindVars_list, List.map_map]
    congr 1
    exact List.map_congr_left ih
  | pattern as r ih ihr =>
    rw [bindVars_pattern, bindVars_pattern, bindVars_cons, ihr, List.map_map]
    congr 1
    exact List.map_congr_left ih

theorem bindVars_congr {f g : String → Term} {t : Term} (h : t.VarsIn fun x => f x = g x) :
    t.bindVars f = t.bindVars g := by
  induction t with
  | var x => simpa [bindVars] using varsIn_var.mp h
  | const v => simp [bindVars]
  | list as ih =>
    rw [bindVars_list, bindVars_list]
    congr 1
    exact List.map_congr_left fun a ha => ih a ha (varsIn_list.mp h a ha)
  | pattern as r ih ihr =>
    obtain ⟨has, hr⟩ := varsIn_pattern.mp h
    rw [bindVars_pattern, bindVars_pattern, ihr hr]
    congr 1
    exact List.map_congr_left fun a ha => ih a ha (has a ha)

end Term
end BilingualLogic
