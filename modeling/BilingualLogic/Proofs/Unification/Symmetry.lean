import BilingualLogic.Proofs.Substitution.Aliases
import BilingualLogic.Proofs.Unification.Alike
import BilingualLogic.Proofs.Effort

/-!
Unification is symmetric. Of two variables the left one is bound, so the two orders bind in opposite directions, but
what comes out walks the same way, and so does all that is unified after it.
-/

namespace BilingualLogic

open Substitution

theorem Value.loose_comm (v w : Value) : v.loose w = w.loose v := by
  have hbeq (a b : Decimal) : (a == b) = (b == a) := by
    rw [Bool.eq_iff_iff, Decimal.beq_iff, Decimal.beq_iff]
    exact eq_comm
  cases v <;> cases w
  case number.number a b => exact hbeq a b
  case text.text s t =>
    simp only [loose]
    cases Decimal.ofText? s <;> cases Decimal.ofText? t
    case some.some a b => exact hbeq a b
    all_goals exact Bool.beq_comm
  all_goals first | rfl | exact Bool.beq_comm

/-- Two attempts that both go on forever, both fail, or both end with the same walks. -/
def SameResults (r r' : Bounded (Option Substitution)) : Prop := Option.Rel (Option.Rel SameWalks) r r'

theorem SameResults.trans {r r' r'' : Bounded (Option Substitution)} (h : SameResults r r')
    (h' : SameResults r' r'') : SameResults r r'' := by
  cases h with
  | none => exact h'
  | some h =>
    cases h' with
    | some h' =>
      cases h with
      | none =>
        cases h'
        exact .some .none
      | some h =>
        cases h' with
        | some h' => exact .some (.some (h.trans h'))

def SameBy (u v : Term → Term → Substitution → Bounded (Option Substitution)) : Prop :=
  ∀ (a b : Term) {s s' : Substitution}, SameWalks s s' → SameResults (u a b s) (v a b s')

section Lists

variable {u v : Term → Term → Substitution → Bounded (Option Substitution)} {s s' : Substitution}

theorem unifyAllBy_same (h : SameBy u v) (as bs : List Term) (hs : SameWalks s s') :
    SameResults (unifyAllBy u as bs s) (unifyAllBy v as bs s') := by
  induction as generalizing bs s s' with
  | nil =>
    cases bs with
    | nil => exact .some (.some hs)
    | cons b bs => exact .some .none
  | cons a as ih =>
    cases bs with
    | nil => exact .some .none
    | cons b bs =>
      rw [unifyAllBy, unifyAllBy]
      have hab := h a b hs
      generalize u a b s = r at hab ⊢
      generalize v a b s' = r' at hab ⊢
      cases hab with
      | none => exact .none
      | some hr =>
        cases hr with
        | none => exact .some .none
        | some hr => exact ih bs hr

theorem unifyFrontBy_same (h : SameBy u v) (as : List Term) (a : Term) (bs : List Term) (hs : SameWalks s s') :
    SameResults (unifyFrontBy u as a bs s) (unifyFrontBy v as a bs s') := by
  unfold unifyFrontBy
  split
  · exact .some .none
  · have hfront := unifyAllBy_same h as (bs.take as.length) hs
    generalize unifyAllBy u as (bs.take as.length) s = r at hfront ⊢
    generalize unifyAllBy v as (bs.take as.length) s' = r' at hfront ⊢
    cases hfront with
    | none => exact .none
    | some hr =>
      cases hr with
      | none => exact .some .none
      | some hr => exact h _ _ hr

theorem unifyPatternsBy_same (h : SameBy u v) (as : List Term) (a : Term) (bs : List Term) (b : Term)
    (hs : SameWalks s s') : SameResults (unifyPatternsBy u as a bs b s) (unifyPatternsBy v as a bs b s') := by
  unfold unifyPatternsBy
  generalize min as.length bs.length = k
  dsimp only
  have hshared := unifyAllBy_same h (as.take k) (bs.take k) hs
  generalize unifyAllBy u (as.take k) (bs.take k) s = r at hshared ⊢
  generalize unifyAllBy v (as.take k) (bs.take k) s' = r' at hshared ⊢
  cases hshared with
  | none => exact .none
  | some hr =>
    cases hr with
    | none => exact .some .none
    | some hr => exact h _ _ hr

theorem unifyAllBy_swap (u : Term → Term → Substitution → Bounded (Option Substitution)) (as bs : List Term)
    (s : Substitution) : unifyAllBy (fun a b => u b a) as bs s = unifyAllBy u bs as s := by
  induction as generalizing bs s with
  | nil => cases bs <;> rfl
  | cons a as ih =>
    cases bs with
    | nil => rfl
    | cons b bs =>
      rw [unifyAllBy, unifyAllBy]
      simp only [ih]

theorem unifyPatternsBy_swap (u : Term → Term → Substitution → Bounded (Option Substitution)) (as : List Term) (a : Term)
    (bs : List Term) (b : Term) (s : Substitution) :
    unifyPatternsBy (fun a b => u b a) as a bs b s = unifyPatternsBy u bs b as a s := by
  unfold unifyPatternsBy
  rw [Nat.min_comm]
  dsimp only
  rw [unifyAllBy_swap]

end Lists

/-- What comes of a unification depends on the walks alone. -/
theorem unify_same (n : Nat) : SameBy (unify n) (unify n) := by
  induction n with
  | zero =>
    intro a b s s' _
    exact .none
  | succ n ih =>
    intro a b s s' hs
    rw [unify, unify]
    have hl := hs.ends a
    have hr := hs.ends b
    generalize s.walk a = c at hl ⊢
    generalize s'.walk a = c' at hl ⊢
    generalize s.walk b = d at hr ⊢
    generalize s'.walk b = d' at hr ⊢
    cases hl with
    | @var x x' hx hx' hxx =>
      cases hr with
      | @var y y' hy hy' hyy =>
        refine .some (.some ?_)
        have hiff : x = y ↔ x' = y' := by
          constructor
          · rintro rfl
            have hw := (hyy x).mp (walk_unbound hy)
            rw [(hxx x).mp (walk_unbound hx)] at hw
            exact Term.var.inj hw
          · rintro rfl
            have hw := (hyy x').mpr (walk_unbound hy')
            rw [(hxx x').mpr (walk_unbound hx')] at hw
            exact Term.var.inj hw
        by_cases hxy : x = y
        · rw [if_pos hxy, if_pos (hiff.mp hxy)]
          exact hs
        · rw [if_neg hxy, if_neg fun h => hxy (hiff.mpr h)]
          exact hs.bind_var hx hx' hxx hy hy' hyy (Ne.symm hxy) fun h => hxy (hiff.mpr h.symm)
      | value ht =>
        cases d with
        | var => cases ht
        | _ => exact .some (.some (hs.bind_value hx hx' hxx ht))
    | value ht =>
      cases hr with
      | @var y y' hy hy' hyy =>
        cases c with
        | var => cases ht
        | _ => exact .some (.some (hs.bind_value hy hy' hyy ht))
      | value hu =>
        cases c with
        | var => cases ht
        | const v =>
          cases d with
          | var => cases hu
          | const w =>
            refine .some ?_
            split
            · exact .some hs
            · exact .none
          | _ => exact .some .none
        | list as =>
          cases d with
          | var => cases hu
          | const w => exact .some .none
          | list bs =>
            dsimp only
            split
            · exact unifyAllBy_same ih as bs hs
            · exact .some .none
          | pattern bs b => exact unifyFrontBy_same ih bs b as hs
        | pattern as a =>
          cases d with
          | var => cases hu
          | const w => exact .some .none
          | list bs => exact unifyFrontBy_same ih as a bs hs
          | pattern bs b => exact unifyPatternsBy_same ih as a bs b hs

theorem unify_swap (n : Nat) : SameBy (unify n) (fun a b => unify n b a) := by
  -- it is enough to swap from one substitution, as unification depends on the walks alone
  suffices swap : ∀ a b {s : Substitution}, s.Walkable → SameResults (unify n a b s) (unify n b a s) from
    fun a b _ _ hs => (unify_same n a b hs).trans (swap a b hs.right)
  induction n with
  | zero =>
    intro a b s _
    exact .none
  | succ n ih =>
    have hswap : SameBy (unify n) (fun a b => unify n b a) := fun a b _ _ hs =>
      (unify_same n a b hs).trans (ih a b hs.right)
    intro a b s hs
    rw [unify, unify]
    have hl := hs a
    have hr := hs b
    generalize s.walk a = a at hl ⊢
    generalize s.walk b = b at hr ⊢
    have same : SameWalks s s := .refl hs
    have bound {x : String} {t : Term} (hx : s.Ends (.var x)) (ht : s.Ends t) (hne : t ≠ .var x) :
        SameResults (some (some (s.bind x t))) (some (some (s.bind x t))) :=
      .some (.some (.refl (hs.bind (hx x rfl) ht hne)))
    cases a with
    | var x =>
      cases b with
      | var y =>
        refine .some (.some ?_)
        by_cases hxy : x = y
        · rw [if_pos hxy, if_pos hxy.symm]
          exact same
        · rw [if_neg hxy, if_neg (Ne.symm hxy)]
          exact sameWalks_swap hs (hl x rfl) (hr y rfl) (Ne.symm hxy)
      | _ => exact bound hl hr (by rintro ⟨⟩)
    | const v =>
      cases b with
      | var y => exact bound hr hl (by rintro ⟨⟩)
      | const w =>
        dsimp only
        rw [Value.loose_comm v w]
        refine .some ?_
        split
        · exact .some same
        · exact .none
      | _ => exact .some .none
    | list as =>
      cases b with
      | var y => exact bound hr hl (by rintro ⟨⟩)
      | const w => exact .some .none
      | list bs =>
        dsimp only
        by_cases hlength : as.length = bs.length
        · rw [if_pos hlength, if_pos hlength.symm, ← unifyAllBy_swap (unify n) as bs]
          exact unifyAllBy_same hswap as bs same
        · rw [if_neg hlength, if_neg (Ne.symm hlength)]
          exact .some .none
      | pattern bs b => exact unifyFrontBy_same (unify_same n) bs b as same
    | pattern as a =>
      cases b with
      | var y => exact bound hr hl (by rintro ⟨⟩)
      | const w => exact .some .none
      | list bs => exact unifyFrontBy_same (unify_same n) as a bs same
      | pattern bs b =>
        dsimp only
        rw [← unifyPatternsBy_swap (unify n) as a bs b]
        exact unifyPatternsBy_same hswap as a bs b same

/-- The two orders of the terms return together, and fail together or end with the same walks. -/
theorem unify_symmetric {s : Substitution} (hs : s.Direct) (a b : Term) :
    ((∃ n r, unify n a b s = some r) ↔ ∃ n r, unify n b a s = some r) ∧
    ∀ n m r r', unify n a b s = some r → unify m b a s = some r' → Option.Rel SameWalks r r' := by
  have swapped {n : Nat} {a b : Term} {r : Option Substitution} (h : unify n a b s = some r) :
      ∃ r', unify n b a s = some r' ∧ Option.Rel SameWalks r r' := by
    have hr := unify_swap n a b (.refl (walkable_iff_direct.mpr hs))
    dsimp only at hr
    rw [h] at hr
    generalize unify n b a s = q at hr ⊢
    cases hr with
    | some hr => exact ⟨_, rfl, hr⟩
  have returned {a b : Term} : (∃ n r, unify n a b s = some r) → ∃ n r, unify n b a s = some r := by
    rintro ⟨n, r, h⟩
    obtain ⟨r', h', -⟩ := swapped h
    exact ⟨n, r', h'⟩
  refine ⟨⟨returned, returned⟩, fun n m r r' h h' => ?_⟩
  obtain ⟨r'', h'', hr⟩ := swapped h
  obtain rfl := Bounded.unique (fun hnm => unify_le hnm b a s) h'' h'
  exact hr

/-- A unification that binds `X` inside its own value: `Y` leads to it, in either order. -/
theorem unify_symmetric_cyclic : ∃ s₁ s₂,
    unify 3 (.list [.var "X", .var "X"]) (.list [.var "Y", .list [.var "Y"]]) ∅ = some (some s₁) ∧
    unify 3 (.list [.var "Y", .list [.var "Y"]]) (.list [.var "X", .var "X"]) ∅ = some (some s₂) ∧
    s₁.get? "X" = some (.var "Y") ∧ s₂.get? "Y" = some (.var "X") ∧ SameWalks s₁ s₂ := by
  refine ⟨_, _, rfl, rfl, rfl, rfl, ?_⟩
  have h := (unify_symmetric (walkable_iff_direct.mp walkable_empty) (.list [.var "X", .var "X"])
    (.list [.var "Y", .list [.var "Y"]])).2 3 3 _ _ rfl rfl
  cases h with
  | some h => exact h

end BilingualLogic
