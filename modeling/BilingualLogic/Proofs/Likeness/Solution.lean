import BilingualLogic.Proofs.Likeness.Run
import BilingualLogic.Solution

/-!
Solutions of queries that are alike: values that are alike for the same variables, drawn with the same effort.
-/

namespace BilingualLogic

variable {L : Likeness}

namespace Solution

/-- The same variables have alike values. -/
def Alike (L : Likeness) (a a' : Solution) : Prop :=
  List.Forall₂ (fun x x' => x.1 = x'.1 ∧ Term.Alike L x.2 x'.2) a.bindings a'.bindings

def VarsIn (V : String → Prop) (a : Solution) : Prop := ∀ x ∈ a.bindings, x.2.VarsIn V

theorem project_alike (hL : OneToOne L.names) {vars : List String} (hvars : ∀ x ∈ vars, L.names x x)
    {b b' : Substitution} (h : b.Alike L b') : (project vars b).Alike L (project vars b') := by
  refine List.rel_filterMap (R := fun x y => x = y ∧ L.names x x) ?_
    (List.forall₂_same.mpr fun x hx => ⟨rfl, hvars x hx⟩)
  rintro x _ ⟨rfl, hx⟩
  dsimp only
  have hvalue := h.resolve hL (.var hx)
  generalize b.resolve (.var x) = t at hvalue ⊢
  generalize b'.resolve (.var x) = u at hvalue ⊢
  cases hvalue with
  | var _ => exact .none
  | const hv => exact .some ⟨rfl, .const hv⟩
  | list has => exact .some ⟨rfl, .list has⟩
  | pattern has hr => exact .some ⟨rfl, .pattern has hr⟩

theorem project_varsIn {V : String → Prop} {vars : List String} (hvars : ∀ x ∈ vars, V x) {b : Substitution}
    (hb : b.VarsIn V) : (project vars b).VarsIn V := by
  intro y hy
  obtain ⟨x, hx, hy⟩ := List.mem_filterMap.mp hy
  have hvalue := hb.resolve (Term.varsIn_var.mpr (hvars x hx))
  split at hy
  · cases hy
  · cases hy
    exact hvalue

theorem Alike.withNames {R : String → String → Prop} {V W : String → Prop}
    (hR : ∀ x y, L.names x y → V x → W y → R x y) {a a' : Solution} (h : a.Alike L a') (ha : a.VarsIn V)
    (ha' : a'.VarsIn W) : a.Alike (L.withNames R) a' :=
  h.imp_of_mem fun x hx x' hx' h => ⟨h.1, h.2.withNames hR (ha x hx) (ha' x' hx')⟩

theorem Alike.eq (hL : ∀ x y, L.names x y → x = y) {a a' : Solution} (h : a.Alike L a') : a = a' := by
  obtain ⟨xs⟩ := a
  obtain ⟨ys⟩ := a'
  congr
  exact List.forall₂_eq_eq_eq ▸ List.Forall₂.imp (fun _ _ h => Prod.ext h.1 (h.2.eq hL)) h

end Solution

namespace Query

variable {limits : Limits} {n : Nat} {w w' : World} {q q' : Query}

structure Alike (L : Likeness) (q q' : Query) : Prop where
  vars : q.vars = q'.vars
  search : q.search.Alike L q'.search

/-- A solution that was drawn, and the query after it. -/
structure AlikePull (L : Likeness) (r r' : Option Solution × World × Query) : Prop where
  solution : Option.Rel (Solution.Alike L) r.1 r'.1
  world : r.2.1.Alike L r'.2.1
  query : r.2.2.Alike L r'.2.2

theorem next_alike (hL : L.Proper) (n : Nat) (hw : w.Alike L w') (hq : q.Alike L q')
    (hvars : ∀ x ∈ q.vars, L.names x x) (hguard : Search.Guards L limits false w q.search) :
    Option.Rel (AlikePull L) (q.next limits n w) (q'.next limits n w') := by
  rw [Query.next, Query.next, ← hq.vars]
  refine Option.Rel.map (Search.next_alike hL n hw hq.search hguard) ?_
  rintro ⟨answer, w₁, s₁⟩ ⟨answer', w₁', s₁'⟩ ⟨hanswer, hw₁, hs₁⟩
  exact ⟨hanswer.map fun _ _ => Solution.project_alike hL.names hvars, hw₁, rfl, hs₁⟩

end Query
end BilingualLogic
