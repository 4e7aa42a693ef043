import BilingualLogic.Substitution
import Std.Data.TreeMap.Lemmas

/-!
Walks. Every binding that is made goes from an unbound variable to a term that a walk has ended at, so substitutions
grow binding by binding, and a walk always ends at an unbound variable or at a term of another kind.
-/

namespace BilingualLogic.Substitution

@[simp] theorem get?_empty (x : String) : (∅ : Substitution).get? x = none := by
  change (∅ : Std.TreeMap String Term)[x]? = none
  simp

theorem get?_bind (s : Substitution) (x y : String) (t : Term) :
    (s.bind x t).get? y = if x = y then some t else s.get? y := by
  simp [get?, bind, Std.TreeMap.getElem?_insert]

@[simp] theorem get?_bind_self (s : Substitution) (x : String) (t : Term) : (s.bind x t).get? x = some t := by
  simp [get?_bind]

theorem get?_bind_of_ne (s : Substitution) {x y : String} (h : x ≠ y) (t : Term) :
    (s.bind x t).get? y = s.get? y := by
  simp [get?_bind, h]

theorem get?_erase (s : Substitution) (x y : String) : (s.erase x).get? y = if x = y then none else s.get? y := by
  simp [get?, erase, Std.TreeMap.getElem?_erase]

theorem size_bind (s : Substitution) {x : String} (h : s.get? x = none) (t : Term) :
    (s.bind x t).size = s.size + 1 := by
  have hx : x ∉ s.bindings := by simpa [get?] using h
  simp [size, bind, Std.TreeMap.size_insert, hx]

def Ends (s : Substitution) (t : Term) : Prop := ∀ x, t = .var x → s.get? x = none

theorem follow_of_ends {s : Substitution} {t : Term} (h : s.Ends t) (n : Nat) : s.follow n t = t := by
  cases n with
  | zero => rfl
  | succ n =>
    cases t with
    | var x => simp [follow, h x rfl]
    | _ => rfl

/-- Every walk ends. -/
def Walkable (s : Substitution) : Prop := ∀ t, s.Ends (s.walk t)

theorem walkable_empty : Walkable ∅ := by
  intro t x _
  exact get?_empty x

theorem follow_add (s : Substitution) (m n : Nat) (t : Term) : s.follow (m + n) t = s.follow n (s.follow m t) := by
  induction m generalizing t with
  | zero => rw [Nat.zero_add, follow]
  | succ m ih =>
    rw [Nat.succ_add]
    cases t with
    | var x =>
      rw [follow, follow]
      cases hx : s.get? x with
      | none => exact (follow_of_ends (by rintro y ⟨⟩; exact hx) n).symm
      | some t => exact ih t
    | _ => exact (follow_of_ends (by rintro y ⟨⟩) n).symm

/-- It makes no difference how much further a walk may go than there are bindings. -/
theorem Walkable.follow_eq {s : Substitution} (h : s.Walkable) {n : Nat} (hn : s.size ≤ n) (t : Term) :
    s.follow n t = s.walk t := by
  obtain ⟨k, rfl⟩ := Nat.exists_eq_add_of_le hn
  rw [follow_add]
  exact follow_of_ends (h t) k

theorem ends_bind {s : Substitution} {x : String} {u t : Term} (ht : s.Ends t) (hx : t ≠ .var x) :
    (s.bind x u).Ends t := by
  intro y hy
  have hne : x ≠ y := by
    rintro rfl
    exact hx hy
  rw [get?_bind_of_ne s hne]
  exact ht y hy

theorem follow_bind {s : Substitution} {x : String} {u : Term} (hx : s.get? x = none) (hu : s.Ends u)
    (hne : u ≠ .var x) (n : Nat) (t : Term) (h : s.Ends (s.follow n t)) :
    (s.bind x u).Ends ((s.bind x u).follow (n + 1) t) := by
  have hu' : (s.bind x u).Ends u := ends_bind hu hne
  have last (t : Term) (ht : s.Ends t) (n : Nat) : (s.bind x u).Ends ((s.bind x u).follow (n + 1) t) := by
    by_cases htx : t = .var x
    · rw [htx, follow, get?_bind_self]
      change (s.bind x u).Ends ((s.bind x u).follow n u)
      rw [follow_of_ends hu']
      exact hu'
    · have ht' := ends_bind (u := u) ht htx
      rw [follow_of_ends ht']
      exact ht'
  induction n generalizing t with
  | zero => exact last t h 0
  | succ n ih =>
    cases t with
    | var y =>
      cases hy : s.get? y with
      | none => exact last (.var y) (by rintro z ⟨⟩; exact hy) (n + 1)
      | some t =>
        have hxy : x ≠ y := by
          rintro rfl
          rw [hx] at hy
          cases hy
        simp only [follow, hy] at h
        rw [follow, get?_bind_of_ne s hxy, hy]
        exact ih t h
    | const v => exact last (.const v) (by rintro z ⟨⟩) (n + 1)
    | list as => exact last (.list as) (by rintro z ⟨⟩) (n + 1)
    | pattern as r => exact last (.pattern as r) (by rintro z ⟨⟩) (n + 1)

theorem Walkable.bind {s : Substitution} (h : s.Walkable) {x : String} {u : Term} (hx : s.get? x = none)
    (hu : s.Ends u) (hne : u ≠ .var x) : (s.bind x u).Walkable := by
  intro t
  unfold walk
  rw [size_bind s hx]
  exact follow_bind hx hu hne s.size t (h t)

theorem size_erase {s : Substitution} {x : String} {t : Term} (h : s.get? x = some t) :
    (s.erase x).size = s.size - 1 := by
  have hx : x ∈ s.bindings := by
    rw [Std.TreeMap.mem_iff_isSome_getElem?]
    exact Option.isSome_iff_exists.mpr ⟨t, h⟩
  simp [size, erase, Std.TreeMap.size_erase, hx]

theorem size_pos {s : Substitution} {x : String} {t : Term} (h : s.get? x = some t) : 0 < s.size := by
  have hx : x ∈ s.bindings := by
    rw [Std.TreeMap.mem_iff_isSome_getElem?]
    exact Option.isSome_iff_exists.mpr ⟨t, h⟩
  refine Nat.pos_of_ne_zero fun hzero => ?_
  have hempty : s.bindings.isEmpty = true := by
    rw [Std.TreeMap.isEmpty_eq_size_eq_zero]
    simpa [size] using hzero
  exact Std.TreeMap.isEmpty_iff_forall_not_mem.mp hempty x hx

/-- It makes no difference how many more variables may be on the way than there are bindings. -/
theorem resolveVar_of_size_le {s : Substitution} {n : Nat} (hn : s.size ≤ n) (x : String) :
    resolveVar n s x = resolveVar s.size s x := by
  generalize hm : s.size = m at hn
  induction m generalizing n s x with
  | zero =>
    have hget : s.get? x = none := by
      cases hget : s.get? x with
      | none => rfl
      | some t => exact absurd (size_pos hget) (by omega)
    cases n with
    | zero => rfl
    | succ n => simp [resolveVar, hget]
  | succ m ih =>
    obtain ⟨n, rfl⟩ : ∃ k, n = k + 1 := ⟨n - 1, by omega⟩
    rw [resolveVar, resolveVar]
    cases hget : s.get? x with
    | none => rfl
    | some t =>
      have hsize : (s.erase x).size = m := by rw [size_erase hget, hm, Nat.add_sub_cancel]
      exact congrArg t.bindVars (funext fun y => ih y hsize (by omega))

/-- The second substitution comes from the first by bindings of unbound variables to ends of walks, all of them terms
with a given property. -/
inductive Grows (P : Term → Prop) (s : Substitution) : Substitution → Prop
  | refl : Grows P s s
  | bind {s' : Substitution} {x : String} {u : Term} : Grows P s s' → s'.get? x = none → s'.Ends u → u ≠ .var x →
      P (.var x) → P u → Grows P s (s'.bind x u)

namespace Grows

variable {P : Term → Prop} {s s' s'' : Substitution}

theorem trans (h : Grows P s s') (h' : Grows P s' s'') : Grows P s s'' := by
  induction h' with
  | refl => exact h
  | bind _ hx hu hne hpx hpu ih => exact ih.bind hx hu hne hpx hpu

theorem walkable (h : Grows P s s') (hs : s.Walkable) : s'.Walkable := by
  induction h with
  | refl => exact hs
  | bind _ hx hu hne _ _ ih => exact ih.bind hx hu hne

end Grows

def All (P : Term → Prop) (s : Substitution) : Prop := ∀ x t, s.get? x = some t → P (.var x) ∧ P t

theorem all_empty (P : Term → Prop) : All P ∅ := by
  intro x t h
  rw [get?_empty] at h
  cases h

theorem All.bind {P : Term → Prop} {s : Substitution} (h : s.All P) {x : String} {u : Term} (hx : P (.var x))
    (hu : P u) : (s.bind x u).All P := by
  intro y t hy
  rw [get?_bind] at hy
  split at hy
  · next hxy =>
    cases hy
    exact ⟨hxy ▸ hx, hu⟩
  · exact h y t hy

theorem Grows.all {P : Term → Prop} {s s' : Substitution} (h : Grows P s s') (hs : s.All P) : s'.All P := by
  induction h with
  | refl => exact hs
  | bind _ _ _ _ hpx hpu ih => exact ih.bind hpx hpu

/-- What is bound to a variable with the property has it too. -/
def Closed (P : Term → Prop) (s : Substitution) : Prop := ∀ x t, s.get? x = some t → P (.var x) → P t

theorem All.closed {P : Term → Prop} {s : Substitution} (h : s.All P) : s.Closed P := fun x t hx _ => (h x t hx).2

theorem Closed.bind {P : Term → Prop} {s : Substitution} (h : s.Closed P) {x : String} {u : Term} (hu : P u) :
    (s.bind x u).Closed P := by
  intro y t hy hpy
  rw [get?_bind] at hy
  split at hy
  · cases hy
    exact hu
  · exact h y t hy hpy

theorem Grows.closed {P : Term → Prop} {s s' : Substitution} (h : Grows P s s') (hs : s.Closed P) : s'.Closed P := by
  induction h with
  | refl => exact hs
  | bind _ _ _ _ _ hpu ih => exact ih.bind hpu

theorem Closed.walk {P : Term → Prop} {s : Substitution} (h : s.Closed P) {t : Term} (ht : P t) : P (s.walk t) := by
  have follow (n : Nat) : ∀ t, P t → P (s.follow n t) := by
    induction n with
    | zero => exact fun t ht => ht
    | succ n ih =>
      intro t ht
      cases t with
      | var x =>
        simp only [Substitution.follow]
        cases hx : s.get? x with
        | none => exact ht
        | some u => exact ih u (h x u hx ht)
      | _ => exact ht
  exact follow s.size t ht

theorem All.walk {P : Term → Prop} {s : Substitution} (h : s.All P) {t : Term} (ht : P t) : P (s.walk t) :=
  h.closed.walk ht

end BilingualLogic.Substitution
