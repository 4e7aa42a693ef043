import BilingualLogic.Proofs.Effort
import BilingualLogic.Proofs.Substitution.Acyclic
import BilingualLogic.Proofs.Substitution.Aliases
import Mathlib.Data.Fintype.Pigeonhole
import Mathlib.Order.WellFounded

/-!
The traversal of lists. It follows the rests of patterns from variable to variable, without a look at those it came
through: it returns exactly where these do not lead around in a circle.
-/

namespace BilingualLogic

open Relation

/-- What the term ends in, behind the items of patterns. -/
def Term.ending : Term → Term
  | .pattern _ rest => rest.ending
  | t => t

namespace Substitution

variable {s : Substitution} {x y z : String} {t : Term}

def GoesOn (s : Substitution) (x y : String) : Prop := ∃ t, s.get? x = some t ∧ t.ending = .var y

def Circles (s : Substitution) (x : String) : Prop := ∃ y, ReflTransGen s.GoesOn x y ∧ TransGen s.GoesOn y y

/-- The term ends in a variable from which the ends of values lead into a circle. -/
def Circular (s : Substitution) (t : Term) : Prop := ∃ x, t.ending = .var x ∧ s.Circles x

theorem Circles.exists_goesOn (h : s.Circles x) : ∃ y, s.GoesOn x y ∧ s.Circles y := by
  obtain ⟨z, hxz, hzz⟩ := h
  rcases hxz.cases_head with rfl | ⟨y, hxy, hyz⟩
  · obtain ⟨y, hxy, hyx⟩ := TransGen.head'_iff.mp hzz
    exact ⟨y, hxy, x, hyx, hzz⟩
  · exact ⟨y, hxy, z, hyz, hzz⟩

theorem Circles.circular (h : s.Circles x) (hx : s.get? x = some t) : s.Circular t := by
  obtain ⟨y, ⟨u, hu, hend⟩, hy⟩ := h.exists_goesOn
  obtain rfl : t = u := Option.some.inj (hx.symm.trans hu)
  exact ⟨y, hend, hy⟩

theorem Circular.follow (h : s.Circular t) (n : Nat) : s.Circular (s.follow n t) := by
  induction n generalizing t with
  | zero => exact h
  | succ n ih =>
    cases t with
    | var x =>
      obtain ⟨_, ⟨⟩, hx⟩ := h
      obtain ⟨y, ⟨u, hu, -⟩, -⟩ := hx.exists_goesOn
      rw [Substitution.follow, hu]
      exact ih (hx.circular hu)
    | _ =>
      rw [follow_of_ends (by rintro _ ⟨⟩)]
      exact h

theorem circles_of_chain {f : Nat → String} (h : ∀ n, s.GoesOn (f n) (f (n + 1))) : s.Circles (f 0) := by
  -- only bound variables go on, and few are bound, so the chain comes back to one of them
  have reaches {m k : Nat} (hmk : m < k) : TransGen s.GoesOn (f m) (f k) := by
    induction hmk with
    | refl => exact .single (h m)
    | step _ ih => exact ih.tail (h _)
  have hbound (n : Nat) : f n ∈ s.bindings.keys := by
    obtain ⟨t, ht, -⟩ := h n
    exact (mem_keys_iff _).mpr ⟨t, ht⟩
  obtain ⟨m, k, hne, heq⟩ := Finite.exists_ne_map_eq_of_infinite
    fun n => (⟨f n, hbound n⟩ : {x // x ∈ s.bindings.keys})
  have heq : f m = f k := congrArg Subtype.val heq
  have circle {m k : Nat} (hmk : m < k) (heq : f m = f k) : s.Circles (f 0) := by
    refine ⟨f m, ?_, ?_⟩
    · rcases Nat.eq_zero_or_pos m with rfl | hpos
      · exact .refl
      · exact (reaches hpos).to_reflTransGen
    · have hreach := reaches hmk
      rwa [← heq] at hreach
  rcases Nat.lt_or_gt_of_ne hne with hmk | hkm
  · exact circle hmk heq
  · exact circle hkm heq.symm

theorem acc_of_not_circles (h : ¬ s.Circles x) : Acc (fun y x => s.GoesOn x y) x := by
  by_contra hacc
  obtain ⟨f, rfl, hf⟩ := not_acc_iff_exists_descending_chain.mp hacc
  exact h (circles_of_chain hf)

end Substitution

namespace Sequence

open Substitution

variable {s : Substitution} {x : String} {t u : Term}

theorem items_of_walk_eq (h : s.walk t = s.walk u) (n : Nat) : items s n t = items s n u := by
  cases n with
  | zero => rfl
  | succ n => rw [items, items, h]

theorem items_pattern (s : Substitution) (n : Nat) (as : List Term) (rest : Term) :
    items s (n + 1) (.pattern as rest) = (items s n rest).map fun r => r.map (as ++ ·) := by
  rw [items, walk_of_ends (by rintro _ ⟨⟩)]
  dsimp only
  rcases items s n rest with _ | _ | _ <;> rfl

theorem items_returns_of_ending (h : ∀ x, t.ending = .var x → ∃ n r, items s n (.var x) = some r) :
    ∃ n r, items s n t = some r := by
  induction t with
  | var x => exact h x rfl
  | const v => exact ⟨1, none, by rw [items, walk_of_ends (by rintro _ ⟨⟩)]⟩
  | list as => exact ⟨1, some as, by rw [items, walk_of_ends (by rintro _ ⟨⟩)]⟩
  | pattern as rest _ ih =>
    obtain ⟨n, r, hr⟩ := ih h
    exact ⟨n + 1, r.map (as ++ ·), by rw [items_pattern, hr]; rfl⟩

theorem items_returns_of_not_circles (hs : s.Walkable) (h : ¬ s.Circles x) : ∃ n r, items s n (.var x) = some r := by
  induction acc_of_not_circles h with
  | intro x _ ih =>
    cases hx : s.get? x with
    | none => exact ⟨1, none, by rw [items, walk_unbound hx]⟩
    | some u =>
      obtain ⟨n, r, hr⟩ : ∃ n r, items s n u = some r := by
        refine items_returns_of_ending fun y hy => ih y ⟨u, hx, hy⟩ fun hcircles => ?_
        obtain ⟨z, hyz, hzz⟩ := hcircles
        exact h ⟨z, hyz.head ⟨u, hx, hy⟩, hzz⟩
      exact ⟨n, r, by rw [items_of_walk_eq (hs.walk_var hx), hr]⟩

theorem items_of_circular (hs : s.Walkable) (h : s.Circular t) (n : Nat) : items s n t = none := by
  -- on the effort: a circular term walks to a pattern, and its rest is circular again
  induction n generalizing t with
  | zero => rfl
  | succ n ih =>
    have hends := hs t
    have hwalk : s.Circular (s.walk t) := h.follow _
    rw [items]
    generalize s.walk t = u at hends hwalk ⊢
    obtain ⟨x, hend, hx⟩ := hwalk
    cases u with
    | var y =>
      cases hend
      obtain ⟨z, ⟨v, hv, -⟩, -⟩ := hx.exists_goesOn
      rw [hends x rfl] at hv
      cases hv
    | pattern as rest =>
      have hrest : s.Circular rest := ⟨x, hend, hx⟩
      dsimp only
      rw [ih hrest]
    | const _ | list _ => cases hend

theorem items_returns_iff (hs : s.Walkable) (t : Term) : (∃ n r, items s n t = some r) ↔ ¬ s.Circular t := by
  constructor
  · rintro ⟨n, r, hr⟩ hcircular
    rw [items_of_circular hs hcircular] at hr
    cases hr
  · intro h
    exact items_returns_of_ending fun x hx => items_returns_of_not_circles hs fun hcircles => h ⟨x, hx, hcircles⟩

end Sequence
end BilingualLogic
