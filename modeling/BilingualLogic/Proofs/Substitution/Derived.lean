import BilingualLogic.Evaluation
import BilingualLogic.Proofs.Sequence.Answers
import BilingualLogic.Proofs.Substitution.Acyclic
import BilingualLogic.Proofs.Substitution.Aliases

/-!
The operations that make bindings. None of them changes a binding, and those that are added are of variables that the
arguments lead to. So whatever is done one after the other from no bindings at all, walks end.
-/

namespace BilingualLogic

open Relation

/-- What makes bindings. -/
inductive Binder where
  | unify (a b : Term)
  | value (result : Term) (formula : Formula)
  | member (element list : Term)
  | append (front back whole : Term)
  | length (list count : Term)

namespace Substitution

variable {V : String → Prop} {s s' : Substitution} {x : String} {t : Term}

/-- All bindings are kept, and those that are added are of variables with names in the set. -/
structure Extends (V : String → Prop) (s s' : Substitution) : Prop where
  keeps {x : String} {t : Term} : s.get? x = some t → s'.get? x = some t
  adds {x : String} {t : Term} : s'.get? x = some t → s.get? x = some t ∨ (s.get? x = none ∧ V x)

theorem extends_bind (hx : s.get? x = none) (hV : V x) : s.Extends V (s.bind x t) where
  keeps := get?_bind_of_some hx
  adds := by
    intro y u hy
    rw [get?_bind] at hy
    split at hy
    · next hxy =>
      subst hxy
      exact .inr ⟨hx, hV⟩
    · exact .inl hy

theorem Extends.trans {s'' : Substitution} (h : s.Extends V s') (h' : s'.Extends V s'') : s.Extends V s'' where
  keeps hx := h'.keeps (h.keeps hx)
  adds := by
    intro x t hx
    rcases h'.adds hx with hx | ⟨hx, hV⟩
    · exact h.adds hx
    · cases hs : s.get? x with
      | none => exact .inr ⟨rfl, hV⟩
      | some u =>
        rw [h.keeps hs] at hx
        cases hx

theorem Grows.extends (h : s.Grows (Term.VarsIn V) s') : s.Extends V s' := by
  induction h with
  | refl => exact ⟨id, .inl⟩
  | bind _ hx _ _ hpx _ ih => exact ih.trans (extends_bind hx (Term.varsIn_var.mp hpx))

end Substitution

theorem unify_of_walk_var {n : Nat} {a b : Term} {s s' : Substitution} {x : String} (hx : s.walk a = .var x)
    (hb : b.isVar = false) (h : unify n a b s = some (some s')) : s' = s.bind x b := by
  cases n with
  | zero => cases h
  | succ n =>
    rw [unify, hx, Substitution.walk_of_ends (Substitution.ends_of_isVar hb).1] at h
    cases b with
    | var y => cases hb
    | _ =>
      cases h
      rfl

namespace Binder

open Substitution

/-- The terms whose variables may be bound. Those of a formula are only read. -/
def arguments : Binder → List Term
  | unify a b => [a, b]
  | value result _ => [result]
  | member element list => [element, list]
  | append front back whole => [front, back, whole]
  | length list count => [list, count]

/-- The second substitution is a result in the first one, whatever the limits are and whatever number
a new list gets. -/
inductive Gives : Binder → Substitution → Substitution → Prop
  | unify {n : Nat} {a b : Term} {s s' : Substitution} : BilingualLogic.unify n a b s = some (some s') →
    Gives (.unify a b) s s'
  | value {n : Nat} {result : Term} {formula : Formula} {s s' : Substitution} :
    formula.unifyValue n result s = some (some s') → Gives (.value result formula) s s'
  | member {n : Nat} {element list : Term} {s s' : Substitution} {bs : List Substitution} :
    Sequence.member n element list s = some bs → s' ∈ bs → Gives (.member element list) s s'
  | append {limits : Limits} {n : Nat} {front back whole : Term} {s s' : Substitution} {bs : List Substitution} :
    Sequence.append limits n front back whole s = some (.ok bs) → s' ∈ bs → Gives (.append front back whole) s s'
  | length {limits : Limits} {n copy : Nat} {list count : Term} {s s' : Substitution} {bs : List Substitution} :
    Sequence.length limits n copy list count s = some (.ok bs) → s' ∈ bs → Gives (.length list count) s s'

/-- The variable occurs in an argument or in a value that an argument leads to. -/
def Touches (o : Binder) (s : Substitution) (x : String) : Prop :=
  ∃ t ∈ o.arguments, ∃ y, t.Occurs y ∧ ReflTransGen s.Leads y x

variable {o : Binder} {s s' : Substitution}

theorem varsIn_touches {t : Term} (ht : t ∈ o.arguments) : t.VarsIn (o.Touches s) := fun x hx => ⟨t, ht, x, hx, .refl⟩

theorem closed_touches (o : Binder) (s : Substitution) : s.Closed (Term.VarsIn (o.Touches s)) := by
  intro x t hx htouches y hy
  obtain ⟨u, hu, z, hz, hzx⟩ := Term.varsIn_var.mp htouches
  exact ⟨u, hu, z, hz, hzx.tail ⟨t, hx, hy⟩⟩

theorem length_walkable_extends {n copy k : Nat} {list count : Term} (hs : s.Walkable)
    (hvar : (s.walk list).isVar = true)
    (h : BilingualLogic.unify n list (.list (Sequence.freshItems copy k)) s = some (some s')) :
    s'.Walkable ∧ s.Extends ((length list count).Touches s) s' := by
  cases hwalk : s.walk list with
  | var x =>
    -- only this variable is bound: the items of the new list stay free
    have hx : s.get? x = none := hs list x hwalk
    have htouches : (Term.var x).VarsIn ((length list count).Touches s) := by
      rw [← hwalk]
      apply (closed_touches _ s).walk
      exact varsIn_touches (by simp [arguments])
    rw [unify_of_walk_var hwalk rfl h]
    constructor
    · exact hs.bind hx (ends_of_isVar rfl).1 ((ends_of_isVar (s := s) rfl).2 x)
    · exact extends_bind hx (Term.varsIn_var.mp htouches)
  | _ => simp [hwalk, Term.isVar] at hvar

theorem Gives.walkable_extends (h : o.Gives s s') (hs : s.Walkable) : s'.Walkable ∧ s.Extends (o.Touches s) s' := by
  have hclosed := closed_touches o s
  have argument (t : Term) (ht : t ∈ o.arguments) : t.VarsIn (o.Touches s) := varsIn_touches ht
  have of_grows (hg : s.Grows (Term.VarsIn (o.Touches s)) s') : s'.Walkable ∧ s.Extends (o.Touches s) s' :=
    ⟨hg.walkable hs, hg.extends⟩
  have hP : Hereditary (Term.VarsIn (o.Touches s)) := Term.hereditary_varsIn
  cases h with
  | unify h => exact of_grows (unify_growsBy hP _ hs hclosed (argument _ (by simp [arguments]))
      (argument _ (by simp [arguments])) h)
  | value h =>
    unfold Formula.unifyValue at h
    split at h
    · exact of_grows (unify_growsBy hP _ hs hclosed (argument _ (by simp [arguments])) (Term.varsIn_const _) h)
    · cases h
  | member h hmem => exact of_grows (Sequence.member_grows hP hs hclosed (argument _ (by simp [arguments]))
      (argument _ (by simp [arguments])) h hmem)
  | append h hmem => exact of_grows (Sequence.append_grows hP hs hclosed (argument _ (by simp [arguments]))
      (argument _ (by simp [arguments])) (argument _ (by simp [arguments])) h hmem)
  | length h hmem =>
    rcases Sequence.of_mem_length h hmem with ⟨d, hu⟩ | ⟨k, hvar, hu⟩
    · exact of_grows (unify_growsBy hP _ hs hclosed (argument _ (by simp [arguments])) (Term.varsIn_const _) hu)
    · exact length_walkable_extends hs hvar hu

end Binder

namespace Substitution

def Becomes : Substitution → Substitution → Prop := ReflTransGen fun s s' => ∃ o : Binder, o.Gives s s'

theorem Becomes.walkable {s s' : Substitution} (h : s.Becomes s') (hs : s.Walkable) : s'.Walkable := by
  induction h with
  | refl => exact hs
  | tail _ h ih =>
    obtain ⟨o, ho⟩ := h
    exact (ho.walkable_extends ih).1

end Substitution
end BilingualLogic
