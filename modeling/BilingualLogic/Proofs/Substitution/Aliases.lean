import BilingualLogic.Proofs.Substitution.Walk
import Mathlib.Logic.Relation

/-!
Variables that are bound to variables. Walks end exactly if no variable is passed on to itself. Two substitutions may
pass the same variables on in different directions: they are told apart by no walk if they have the same aliases and
give a variable the same value, if any.
-/

namespace BilingualLogic.Substitution

open Relation

variable {s s' s'' : Substitution} {x y z : String} {t u : Term}

def Passes (s : Substitution) (x y : String) : Prop := s.get? x = some (.var y)

/-- No variable is passed on back to itself, at once or by way of others. -/
def Direct (s : Substitution) : Prop := ∀ x, ¬ TransGen s.Passes x x

theorem follow_erase (h : ¬ ReflTransGen s.Passes y x) (n : Nat) :
    (s.erase x).follow n (.var y) = s.follow n (.var y) ∧ s.follow n (.var y) ≠ .var x := by
  induction n generalizing y with
  | zero =>
    refine ⟨rfl, ?_⟩
    rintro ⟨⟩
    exact h .refl
  | succ n ih =>
    have hne : x ≠ y := by
      rintro rfl
      exact h .refl
    rw [follow, follow, get?_erase, if_neg hne]
    cases hy : s.get? y with
    | none =>
      refine ⟨rfl, ?_⟩
      rintro ⟨⟩
      exact hne rfl
    | some t =>
      cases t with
      | var z => exact ih fun hz => h (.head hy hz)
      | _ =>
        dsimp only
        rw [follow_of_ends (by rintro _ ⟨⟩), follow_of_ends (by rintro _ ⟨⟩)]
        exact ⟨rfl, by rintro ⟨⟩⟩

theorem Direct.erase (h : s.Direct) (x : String) : (s.erase x).Direct := by
  intro y hy
  refine h y (hy.lift id fun z w hz => ?_)
  rw [Passes, get?_erase] at hz
  split at hz
  · cases hz
  · exact hz

theorem Direct.ends (h : s.Direct) {n : Nat} (hn : s.size ≤ n) (t : Term) : s.Ends (s.follow n t) := by
  induction n generalizing s t with
  | zero =>
    intro x _
    cases hx : s.get? x with
    | none => rfl
    | some u => exact absurd (size_pos hx) (by omega)
  | succ n ih =>
    cases t with
    | var x =>
      rw [follow]
      cases hx : s.get? x with
      | none =>
        rintro _ ⟨⟩
        exact hx
      | some u =>
        cases u with
        | var y =>
          -- the variable does not come up again, so the rest of the walk does without its binding
          have hback : ¬ ReflTransGen s.Passes y x := fun hyx => h x (.head' hx hyx)
          obtain ⟨heq, hne⟩ := follow_erase hback n
          have hsize : (s.erase x).size ≤ n := by
            rw [size_erase hx]
            omega
          have hends := ih (h.erase x) hsize (.var y)
          rw [heq] at hends
          intro z hz
          have hget := hends z hz
          rw [get?_erase, if_neg (by rintro rfl; exact hne hz)] at hget
          exact hget
        | _ =>
          dsimp only
          rw [follow_of_ends (by rintro _ ⟨⟩)]
          rintro _ ⟨⟩
    | _ =>
      rw [follow_of_ends (by rintro _ ⟨⟩)]
      rintro _ ⟨⟩

theorem follow_of_passes (h : TransGen s.Passes x x) (n : Nat) :
    ∃ y, s.follow n (.var x) = .var y ∧ TransGen s.Passes y y := by
  induction n generalizing x with
  | zero => exact ⟨x, rfl, h⟩
  | succ n ih =>
    obtain ⟨y, hxy, hyx⟩ := TransGen.head'_iff.mp h
    obtain ⟨z, hz, hzz⟩ := ih (.tail' hyx hxy)
    exact ⟨z, by rw [follow, hxy]; exact hz, hzz⟩

theorem walkable_iff_direct : s.Walkable ↔ s.Direct := by
  constructor
  · intro h x hx
    obtain ⟨y, hy, hyy⟩ := follow_of_passes hx s.size
    obtain ⟨z, hyz, -⟩ := TransGen.head'_iff.mp hyy
    have hnone := h (.var x) y hy
    rw [hyz] at hnone
    cases hnone
  · exact fun h t => h.ends (Nat.le_refl _) t

theorem walk_of_ends (h : s.Ends t) : s.walk t = t := follow_of_ends h _

theorem Walkable.walk_var (h : s.Walkable) (hx : s.get? x = some t) : s.walk (.var x) = s.walk t := by
  rw [← h.follow_eq (Nat.le_succ _) (.var x), follow, hx]
  rfl

theorem Walkable.walk_follow (h : s.Walkable) (hs : ∀ x t, s'.get? x = some t → s.get? x = some t) (n : Nat)
    (t : Term) : s.walk (s'.follow n t) = s.walk t := by
  induction n generalizing t with
  | zero => rfl
  | succ n ih =>
    cases t with
    | var x =>
      rw [follow]
      cases hx : s'.get? x with
      | none => rfl
      | some u =>
        dsimp only
        rw [ih, h.walk_var (hs x u hx)]
    | _ => rw [follow_of_ends (by rintro _ ⟨⟩)]

section Binding

theorem get?_bind_of_some {t u : Term} (hx : s.get? x = none) (hy : s.get? y = some t) :
    (s.bind x u).get? y = some t := by
  rw [get?_bind_of_ne]
  · exact hy
  · rintro rfl
    rw [hx] at hy
    cases hy

variable (hs : s.Walkable) (hx : s.get? x = none) (hu : s.Ends u) (hne : u ≠ .var x)

include hs hx hu hne

theorem walk_bind_of_eq (ht : s.walk t = .var x) : (s.bind x u).walk t = u := by
  have hb := hs.bind hx hu hne
  rw [← hb.walk_follow (fun _ _ => get?_bind_of_some hx) s.size t]
  change (s.bind x u).walk (s.walk t) = u
  rw [ht, hb.walk_var (get?_bind_self s x u), walk_of_ends (ends_bind hu hne)]

theorem walk_bind_of_ne (ht : s.walk t ≠ .var x) : (s.bind x u).walk t = s.walk t := by
  have hb := hs.bind hx hu hne
  rw [← hb.walk_follow (fun _ _ => get?_bind_of_some hx) s.size t]
  exact walk_of_ends (ends_bind (hs t) ht)

end Binding

def Aliased (s : Substitution) (x y : String) : Prop := ∃ z, s.walk (.var x) = .var z ∧ s.walk (.var y) = .var z

/-- Walks end in both substitutions, at one variable in both or in neither, or else at the same term. -/
structure SameWalks (s s' : Substitution) : Prop where
  left : s.Walkable
  right : s'.Walkable
  aliased (x y : String) : s.Aliased x y ↔ s'.Aliased x y
  value (x : String) {t : Term} : t.isVar = false → (s.walk (.var x) = t ↔ s'.walk (.var x) = t)

namespace SameWalks

theorem refl (h : s.Walkable) : SameWalks s s := ⟨h, h, fun _ _ => Iff.rfl, fun _ _ _ => Iff.rfl⟩

theorem trans (h : SameWalks s s') (h' : SameWalks s' s'') : SameWalks s s'' :=
  ⟨h.left, h'.right, fun x y => (h.aliased x y).trans (h'.aliased x y), fun x _ ht =>
    (h.value x ht).trans (h'.value x ht)⟩

end SameWalks

theorem aliased_iff (hy : s.walk (.var y) = .var x) : s.Aliased z y ↔ s.walk (.var z) = .var x := by
  constructor
  · rintro ⟨w, hz, hw⟩
    rw [hz, ← hw, hy]
  · exact fun hz => ⟨x, hz, hy⟩

theorem walk_unbound (hx : s.get? x = none) : s.walk (.var x) = .var x := by
  apply walk_of_ends
  rintro _ ⟨⟩
  exact hx

/-- Two walks that end at the same variables, or at one term that is no variable. -/
inductive SameEnds (s s' : Substitution) : Term → Term → Prop
  | var {x x' : String} : s.get? x = none → s'.get? x' = none →
    (∀ z, s.walk (.var z) = .var x ↔ s'.walk (.var z) = .var x') → SameEnds s s' (.var x) (.var x')
  | value {t : Term} : t.isVar = false → SameEnds s s' t t

theorem SameWalks.ends (h : SameWalks s s') (t : Term) : SameEnds s s' (s.walk t) (s'.walk t) := by
  cases t with
  | var x =>
    have hl := h.left (.var x)
    have hr := h.right (.var x)
    cases hw : s.walk (.var x) with
    | var y =>
      cases hw' : s'.walk (.var x) with
      | var y' =>
        rw [hw] at hl
        rw [hw'] at hr
        refine .var (hl y rfl) (hr y' rfl) fun z => ?_
        rw [← aliased_iff hw, ← aliased_iff hw']
        exact h.aliased z x
      | _ =>
        have hback := (h.value x (by rfl)).mpr hw'
        rw [hw] at hback
        cases hback
    | _ =>
      rw [(h.value x (by rfl)).mp hw]
      exact .value rfl
  | _ =>
    rw [walk_of_ends (by rintro _ ⟨⟩), walk_of_ends (by rintro _ ⟨⟩)]
    exact .value rfl

section Merging

theorem ends_of_isVar (ht : t.isVar = false) : s.Ends t ∧ ∀ x, t ≠ .var x := by
  constructor
  · rintro x rfl
    cases ht
  · rintro x rfl
    cases ht

theorem aliased_bind_value (hs : s.Walkable) (hx : s.get? x = none) (ht : t.isVar = false) :
    (s.bind x t).Aliased y z ↔ s.Aliased y z ∧ s.walk (.var y) ≠ .var x := by
  obtain ⟨hends, hne⟩ := ends_of_isVar ht
  constructor
  · rintro ⟨w, hy, hz⟩
    have old {v : String} (hv : (s.bind x t).walk (.var v) = .var w) :
        s.walk (.var v) ≠ .var x ∧ s.walk (.var v) = .var w := by
      by_cases hvx : s.walk (.var v) = .var x
      · rw [walk_bind_of_eq hs hx hends (hne x) hvx] at hv
        exact absurd hv (hne w)
      · rw [walk_bind_of_ne hs hx hends (hne x) hvx] at hv
        exact ⟨hvx, hv⟩
    exact ⟨⟨w, (old hy).2, (old hz).2⟩, (old hy).1⟩
  · rintro ⟨⟨w, hy, hz⟩, hyx⟩
    refine ⟨w, ?_, ?_⟩
    · rw [walk_bind_of_ne hs hx hends (hne x) hyx, hy]
    · rw [walk_bind_of_ne hs hx hends (hne x) (by rw [hz, ← hy]; exact hyx), hz]

theorem walk_bind_value (hs : s.Walkable) (hx : s.get? x = none) (ht : t.isVar = false) (hu : u.isVar = false) :
    (s.bind x t).walk (.var y) = u ↔ (s.walk (.var y) = .var x ∧ t = u) ∨ s.walk (.var y) = u := by
  obtain ⟨hends, hne⟩ := ends_of_isVar ht
  by_cases hy : s.walk (.var y) = .var x
  · rw [walk_bind_of_eq hs hx hends (hne x) hy, hy]
    have hux : Term.var x ≠ u := fun h => (ends_of_isVar (s := s) hu).2 x h.symm
    simp [hux]
  · rw [walk_bind_of_ne hs hx hends (hne x) hy]
    simp [hy]

theorem aliased_bind_var (hs : s.Walkable) {a b : String} (ha : s.get? a = none) (hb : s.get? b = none) (hab : b ≠ a) :
    (s.bind a (.var b)).Aliased y z ↔ s.Aliased y z ∨
      ((s.walk (.var y) = .var a ∨ s.walk (.var y) = .var b) ∧ (s.walk (.var z) = .var a ∨ s.walk (.var z) = .var b)) := by
  have hends : s.Ends (.var b) := by
    rintro _ ⟨⟩
    exact hb
  have hne : Term.var b ≠ .var a := fun h => hab (Term.var.inj h)
  have walked (v : String) : (s.walk (.var v) = .var a ∧ (s.bind a (.var b)).walk (.var v) = .var b) ∨
      (s.walk (.var v) ≠ .var a ∧ (s.bind a (.var b)).walk (.var v) = s.walk (.var v)) := by
    by_cases hv : s.walk (.var v) = .var a
    · exact .inl ⟨hv, walk_bind_of_eq hs ha hends hne hv⟩
    · exact .inr ⟨hv, walk_bind_of_ne hs ha hends hne hv⟩
  unfold Aliased
  rcases walked y with ⟨hy, hy'⟩ | ⟨hy, hy'⟩ <;> rcases walked z with ⟨hz, hz'⟩ | ⟨hz, hz'⟩ <;> rw [hy', hz']
  · simp [hy, hz]
  · simp [hy, hz]
  · simp [hy, hz]
  · have hold (hyb : s.walk (.var y) = .var b) (hzb : s.walk (.var z) = .var b) :
        ∃ v, s.walk (.var y) = .var v ∧ s.walk (.var z) = .var v := ⟨b, hyb, hzb⟩
    simpa [hy, hz] using hold

theorem walk_bind_var (hs : s.Walkable) {a b : String} (ha : s.get? a = none) (hb : s.get? b = none) (hab : b ≠ a)
    (hu : u.isVar = false) : (s.bind a (.var b)).walk (.var y) = u ↔ s.walk (.var y) = u := by
  have hends : s.Ends (.var b) := by
    rintro _ ⟨⟩
    exact hb
  have hne : Term.var b ≠ .var a := fun h => hab (Term.var.inj h)
  have hvar (v : String) : Term.var v ≠ u := fun h => (ends_of_isVar (s := s) hu).2 v h.symm
  by_cases hy : s.walk (.var y) = .var a
  · rw [walk_bind_of_eq hs ha hends hne hy, hy]
    exact ⟨fun h => absurd h (hvar b), fun h => absurd h (hvar a)⟩
  · rw [walk_bind_of_ne hs ha hends hne hy]

variable {x' y' : String}

theorem SameWalks.bind_value (h : SameWalks s s') (hx : s.get? x = none) (hx' : s'.get? x' = none)
    (hxx : ∀ z, s.walk (.var z) = .var x ↔ s'.walk (.var z) = .var x') (ht : t.isVar = false) :
    SameWalks (s.bind x t) (s'.bind x' t) := by
  refine ⟨h.left.bind hx (ends_of_isVar ht).1 ((ends_of_isVar (s := s) ht).2 x),
    h.right.bind hx' (ends_of_isVar ht).1 ((ends_of_isVar (s := s) ht).2 x'), fun y z => ?_, fun y u hu => ?_⟩
  · rw [aliased_bind_value h.left hx ht, aliased_bind_value h.right hx' ht, h.aliased, Ne, Ne, hxx]
  · rw [walk_bind_value h.left hx ht hu, walk_bind_value h.right hx' ht hu, hxx, h.value y hu]

theorem Walkable.bind_var (hs : s.Walkable) (hx : s.get? x = none) (hy : s.get? y = none) (hxy : y ≠ x) :
    (s.bind x (.var y)).Walkable := by
  apply hs.bind hx
  · rintro _ ⟨⟩
    exact hy
  · exact fun h => hxy (Term.var.inj h)

theorem SameWalks.bind_var (h : SameWalks s s') (hx : s.get? x = none) (hx' : s'.get? x' = none)
    (hxx : ∀ z, s.walk (.var z) = .var x ↔ s'.walk (.var z) = .var x') (hy : s.get? y = none)
    (hy' : s'.get? y' = none) (hyy : ∀ z, s.walk (.var z) = .var y ↔ s'.walk (.var z) = .var y') (hxy : y ≠ x)
    (hxy' : y' ≠ x') : SameWalks (s.bind x (.var y)) (s'.bind x' (.var y')) := by
  refine ⟨h.left.bind_var hx hy hxy, h.right.bind_var hx' hy' hxy', fun v w => ?_, fun v u hu => ?_⟩
  · rw [aliased_bind_var h.left hx hy hxy, aliased_bind_var h.right hx' hy' hxy', h.aliased, hxx, hyy, hxx, hyy]
  · rw [walk_bind_var h.left hx hy hxy hu, walk_bind_var h.right hx' hy' hxy' hu, h.value v hu]

theorem sameWalks_swap (hs : s.Walkable) (hx : s.get? x = none) (hy : s.get? y = none) (hxy : y ≠ x) :
    SameWalks (s.bind x (.var y)) (s.bind y (.var x)) := by
  refine ⟨hs.bind_var hx hy hxy, hs.bind_var hy hx hxy.symm, fun v w => ?_, fun v u hu => ?_⟩
  · rw [aliased_bind_var hs hx hy hxy, aliased_bind_var hs hy hx hxy.symm, or_comm (a := s.walk (.var v) = .var x),
      or_comm (a := s.walk (.var w) = .var x)]
  · rw [walk_bind_var hs hx hy hxy hu, walk_bind_var hs hy hx hxy.symm hu]

end Merging

end BilingualLogic.Substitution
