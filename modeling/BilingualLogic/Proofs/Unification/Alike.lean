import BilingualLogic.Unification
import BilingualLogic.Proofs.Substitution.Walk
import BilingualLogic.Proofs.Term.Alike

/-!
Unification does not look at names: terms that are the same but for the names of their variables are unified with the
same result, again but for the names.
-/

namespace Option.Rel

variable {α β γ δ : Type} {R : α → β → Prop} {S : γ → δ → Prop} {a : Option α} {b : Option β}

theorem map {f : α → γ} {g : β → δ} (h : Rel R a b) (hfg : ∀ x y, R x y → S (f x) (g y)) :
    Rel S (a.map f) (b.map g) := by
  cases h with
  | none => exact .none
  | some h => exact .some (hfg _ _ h)

theorem bind {f : α → Option γ} {g : β → Option δ} (h : Rel R a b) (hfg : ∀ x y, R x y → Rel S (f x) (g y)) :
    Rel S (a.bind f) (b.bind g) := by
  cases h with
  | none => exact .none
  | some h => exact hfg _ _ h

theorem imp_of_eq {R' : α → β → Prop} (h : Rel R a b)
    (hR : ∀ x y, a = Option.some x → b = Option.some y → R x y → R' x y) : Rel R' a b := by
  cases h with
  | none => exact .none
  | some h => exact .some (hR _ _ rfl rfl h)

theorem refl {R : α → α → Prop} {a : Option α} (h : ∀ x, a = Option.some x → R x x) : Rel R a a := by
  cases a with
  | none => exact .none
  | some x => exact .some (h x rfl)

end Option.Rel

namespace BilingualLogic

variable {L L' : Likeness}

namespace Substitution

/-- Corresponding names have values that are alike, and every walk ends. -/
structure Alike (L : Likeness) (s s' : Substitution) : Prop where
  get? {x y : String} : L.names x y → Option.Rel (Term.Alike L) (s.get? x) (s'.get? y)
  left : s.Walkable
  right : s'.Walkable

theorem alike_empty : Alike L ∅ ∅ := by
  refine ⟨fun _ => ?_, walkable_empty, walkable_empty⟩
  rw [get?_empty, get?_empty]
  exact .none

variable {s s' : Substitution}

theorem alike_bind (hL : OneToOne L.names) {t u : Term} (htu : Term.Alike L t u) {x y : String} (hxy : L.names x y)
    (h : ∀ {x y}, L.names x y → Option.Rel (Term.Alike L) (s.get? x) (s'.get? y)) {x' y' : String}
    (hxy' : L.names x' y') : Option.Rel (Term.Alike L) ((s.bind x t).get? x') ((s'.bind y u).get? y') := by
  rw [get?_bind, get?_bind]
  by_cases hx : x = x'
  · rw [if_pos hx, if_pos ((hL _ _ _ _ hxy hxy').mp hx)]
    exact .some htu
  · rw [if_neg hx, if_neg (fun hy => hx ((hL _ _ _ _ hxy hxy').mpr hy))]
    exact h hxy'

theorem Alike.bind (hL : OneToOne L.names) (h : Alike L s s') {x y : String} (hxy : L.names x y) {t u : Term}
    (htu : Term.Alike L t u) (hx : s.Ends (.var x)) (hy : s'.Ends (.var y)) (ht : s.Ends t) (hu : s'.Ends u)
    (hne : t ≠ .var x) : Alike L (s.bind x t) (s'.bind y u) := by
  refine ⟨fun h' => alike_bind hL htu hxy h.get? h', h.left.bind (hx x rfl) ht hne, h.right.bind (hy y rfl) hu ?_⟩
  rintro rfl
  cases htu with
  | var hx' => exact hne (congrArg Term.var ((hL _ _ _ _ hx' hxy).mpr rfl))

theorem Alike.follow (h : Alike L s s') (n : Nat) {t u : Term} (htu : Term.Alike L t u) :
    Term.Alike L (s.follow n t) (s'.follow n u) := by
  induction n generalizing t u with
  | zero => exact htu
  | succ n ih =>
    cases htu with
    | var hxy =>
      rw [Substitution.follow, Substitution.follow]
      have hrel := h.get? hxy
      generalize s.get? _ = r at hrel ⊢
      generalize s'.get? _ = r' at hrel ⊢
      cases hrel with
      | some hv => exact ih hv
      | none => exact .var hxy
    | const hv => exact .const hv
    | list has => exact .list has
    | pattern has ha => exact .pattern has ha

theorem Alike.walk (h : Alike L s s') {t u : Term} (htu : Term.Alike L t u) :
    Term.Alike L (s.walk t) (s'.walk u) := by
  rw [← h.left.follow_eq (Nat.le_max_left s.size s'.size), ← h.right.follow_eq (Nat.le_max_right s.size s'.size)]
  exact h.follow _ htu

theorem alike_resolveVar (hL : OneToOne L.names) (n : Nat) {x y : String} (hxy : L.names x y)
    (h : ∀ {x y}, L.names x y → Option.Rel (Term.Alike L) (s.get? x) (s'.get? y)) :
    Term.Alike L (resolveVar n s x) (resolveVar n s' y) := by
  induction n generalizing s s' x y with
  | zero => exact .var hxy
  | succ n ih =>
    rw [resolveVar, resolveVar]
    have hrel := h hxy
    generalize s.get? x = r at hrel ⊢
    generalize s'.get? y = r' at hrel ⊢
    cases hrel with
    | none => exact .var hxy
    | some htu =>
      refine htu.bindVars (fun x' y' hxy' => ih hxy' fun {x₁ y₁} h₁ => ?_) fun _ => id
      rw [get?_erase, get?_erase]
      by_cases hx : x = x₁
      · rw [if_pos hx, if_pos ((hL _ _ _ _ hxy h₁).mp hx)]
        exact .none
      · rw [if_neg hx, if_neg (fun hy => hx ((hL _ _ _ _ hxy h₁).mpr hy))]
        exact h h₁

theorem Alike.resolve (hL : OneToOne L.names) (h : Alike L s s') {t u : Term} (htu : Term.Alike L t u) :
    Term.Alike L (s.resolve t) (s'.resolve u) := by
  refine htu.bindVars (fun x y hxy => ?_) fun _ => id
  rw [← resolveVar_of_size_le (Nat.le_max_left s.size s'.size),
    ← resolveVar_of_size_le (Nat.le_max_right s.size s'.size)]
  exact alike_resolveVar hL _ hxy h.get?

end Substitution

open Substitution

/-- Two attempts that end alike, if they end. -/
def AlikeResults (L : Likeness) (r r' : Bounded (Option Substitution)) : Prop :=
  Option.Rel (Option.Rel (Substitution.Alike L)) r r'

/-- Alike terms are unified with alike results. -/
def AlikeBy (L : Likeness) (u : Term → Term → Substitution → Bounded (Option Substitution)) : Prop :=
  ∀ {a a' b b' : Term} {s s' : Substitution}, Term.Alike L a a' → Term.Alike L b b' → s.Alike L s' →
    AlikeResults L (u a b s) (u a' b' s')

variable {u : Term → Term → Substitution → Bounded (Option Substitution)} {as as' bs bs' : List Term} {a a' b b' : Term}
  {s s' : Substitution}

theorem unifyAllBy_alike (hu : AlikeBy L u) (has : List.Forall₂ (Term.Alike L) as as')
    (hbs : List.Forall₂ (Term.Alike L) bs bs') (hs : s.Alike L s') :
    AlikeResults L (unifyAllBy u as bs s) (unifyAllBy u as' bs' s') := by
  induction has generalizing bs bs' s s' with
  | nil =>
    cases hbs with
    | nil => exact .some (.some hs)
    | cons _ _ => exact .some .none
  | cons ha _ ih =>
    cases hbs with
    | nil => exact .some .none
    | cons hb hbs =>
      rw [unifyAllBy, unifyAllBy]
      have hab := hu ha hb hs
      generalize u _ _ s = r at hab ⊢
      generalize u _ _ s' = r' at hab ⊢
      cases hab with
      | none => exact .none
      | some h =>
        cases h with
        | none => exact .some .none
        | some h => exact ih hbs h

theorem unifyFrontBy_alike (hu : AlikeBy L u) (has : List.Forall₂ (Term.Alike L) as as') (ha : Term.Alike L a a')
    (hbs : List.Forall₂ (Term.Alike L) bs bs') (hs : s.Alike L s') :
    AlikeResults L (unifyFrontBy u as a bs s) (unifyFrontBy u as' a' bs' s') := by
  rw [unifyFrontBy, unifyFrontBy, has.length_eq, hbs.length_eq]
  split
  · exact .some .none
  · have hfront := unifyAllBy_alike hu has (List.forall₂_take as'.length hbs) hs
    generalize unifyAllBy u as _ s = r at hfront ⊢
    generalize unifyAllBy u as' _ s' = r' at hfront ⊢
    cases hfront with
    | none => exact .none
    | some h =>
      cases h with
      | none => exact .some .none
      | some h => exact hu ha (.list (List.forall₂_drop _ hbs)) h

theorem unifyPatternsBy_alike (hu : AlikeBy L u) (has : List.Forall₂ (Term.Alike L) as as') (ha : Term.Alike L a a')
    (hbs : List.Forall₂ (Term.Alike L) bs bs') (hb : Term.Alike L b b') (hs : s.Alike L s') :
    AlikeResults L (unifyPatternsBy u as a bs b s) (unifyPatternsBy u as' a' bs' b' s') := by
  rw [unifyPatternsBy, unifyPatternsBy, has.length_eq, hbs.length_eq]
  generalize min as'.length bs'.length = k
  have hfront := unifyAllBy_alike hu (List.forall₂_take k has) (List.forall₂_take k hbs) hs
  generalize unifyAllBy u _ _ s = r at hfront ⊢
  generalize unifyAllBy u _ _ s' = r' at hfront ⊢
  cases hfront with
  | none => exact .none
  | some h =>
    cases h with
    | none => exact .some .none
    | some h => exact hu (.cons (List.forall₂_drop k has) ha) (.cons (List.forall₂_drop k hbs) hb) h

theorem unify_alike (hL : OneToOne L.names) (n : Nat) : AlikeBy L (unify n) := by
  induction n with
  | zero =>
    intro a a' b b' s s' _ _ _
    exact .none
  | succ n ih =>
    intro a a' b b' s s' ha hb hs
    rw [unify, unify]
    have hl := hs.walk ha
    have hr := hs.walk hb
    -- what is bound stands at the ends of walks, so walks still end afterwards
    have hle := hs.left a
    have hle' := hs.right a'
    have hre := hs.left b
    have hre' := hs.right b'
    generalize s.walk a = a at hl hle ⊢
    generalize s'.walk a' = a' at hl hle' ⊢
    generalize s.walk b = b at hr hre ⊢
    generalize s'.walk b' = b' at hr hre' ⊢
    cases hl with
    | @var x y hx =>
      cases hr with
      | @var x' y' hx' =>
        refine .some (.some ?_)
        by_cases hxx : x = x'
        · rw [if_pos hxx, if_pos ((hL _ _ _ _ hx hx').mp hxx)]
          exact hs
        · rw [if_neg hxx, if_neg (fun hyy => hxx ((hL _ _ _ _ hx hx').mpr hyy))]
          exact hs.bind hL hx (.var hx') hle hle' hre hre' fun h => hxx (Term.var.inj h).symm
      | const hv => exact .some (.some (hs.bind hL hx (.const hv) hle hle' hre hre' (by simp)))
      | list hbs => exact .some (.some (hs.bind hL hx (.list hbs) hle hle' hre hre' (by simp)))
      | pattern hbs hb => exact .some (.some (hs.bind hL hx (.pattern hbs hb) hle hle' hre hre' (by simp)))
    | const hv =>
      cases hr with
      | var hx => exact .some (.some (hs.bind hL hx (.const hv) hre hre' hle hle' (by simp)))
      | const hw =>
        refine .some ?_
        split
        · exact .some hs
        · exact .none
      | list hbs => exact .some .none
      | pattern hbs hb => exact .some .none
    | list has =>
      cases hr with
      | var hx => exact .some (.some (hs.bind hL hx (.list has) hre hre' hle hle' (by simp)))
      | const hw => exact .some .none
      | list hbs =>
        dsimp only
        rw [has.length_eq, hbs.length_eq]
        split
        · exact unifyAllBy_alike ih has hbs hs
        · exact .some .none
      | pattern hbs hb => exact unifyFrontBy_alike ih hbs hb has hs
    | pattern has ha =>
      cases hr with
      | var hx => exact .some (.some (hs.bind hL hx (.pattern has ha) hre hre' hle hle' (by simp)))
      | const hw => exact .some .none
      | list hbs => exact unifyFrontBy_alike ih has ha hbs hs
      | pattern hbs hb => exact unifyPatternsBy_alike ih has ha hbs hb hs

namespace Predicate

/-- The same predicate with alike arguments. -/
structure Alike (L : Likeness) (p q : Predicate) : Prop where
  name : p.name = q.name
  arguments : List.Forall₂ (Term.Alike L) p.arguments q.arguments

theorem unify_alike (hL : OneToOne L.names) (n : Nat) {p p' q q' : Predicate} (hp : p.Alike L p') (hq : q.Alike L q')
    (hs : s.Alike L s') : AlikeResults L (p.unify n q s) (p'.unify n q' s') := by
  rw [Predicate.unify, Predicate.unify, hp.name, hq.name]
  split
  · rw [unifyAll, unifyAll, hp.arguments.length_eq, hq.arguments.length_eq]
    split
    · exact unifyAllBy_alike (BilingualLogic.unify_alike hL n) hp.arguments hq.arguments hs
    · exact .some .none
  · exact .some .none

end Predicate

end BilingualLogic
