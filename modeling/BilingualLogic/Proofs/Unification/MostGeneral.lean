import BilingualLogic.Proofs.Term.Instance
import BilingualLogic.Proofs.Unification.Exact

/-!
Unification is exact and most general: the models of what two terms are unified to are the models of the substitution
in which the terms are loosely equal, and terms that are loosely equal in some model are unified.
-/

namespace BilingualLogic

structure Assignment where
  term : String → Term
  ground : ∀ x, (term x).isGround = true
  wellFormed : ∀ x, (term x).WellFormed

namespace Assignment

variable (σ : Assignment)

def apply (t : Term) : Term := t.bindVars σ.term

def datum (x : String) : Datum := (σ.term x).datum

def Models (s : Substitution) : Prop := ∀ x t, s.get? x = some t → (σ.term x).loose (σ.apply t) = true

theorem isProper_datum (x : String) : (σ.datum x).isProper := (σ.wellFormed x).isProper_datum

theorem datum_apply (t : Term) : (σ.apply t).datum = t.eval σ.datum := t.datum_bindVars σ.term

theorem wellFormed_apply {t : Term} (ht : t.WellFormed) : (σ.apply t).WellFormed :=
  Term.hereditary_wellFormed.bindVars Term.hereditary_wellFormed (fun _ h => h) σ.wellFormed ht

theorem loose_apply_iff {a b : Term} (ha : a.WellFormed) (hb : b.WellFormed) :
    (σ.apply a).loose (σ.apply b) = true ↔ a.eval σ.datum = b.eval σ.datum := by
  rw [Term.loose_iff (σ.wellFormed_apply ha).2 (σ.wellFormed_apply hb).2, datum_apply, datum_apply]

theorem models_iff {s : Substitution} (hs : s.All Term.WellFormed) : σ.Models s ↔ s.Solves σ.datum := by
  have h {x : String} {t : Term} (hx : s.get? x = some t) :
      (σ.term x).loose (σ.apply t) = true ↔ σ.datum x = t.eval σ.datum := by
    rw [Term.loose_iff (σ.wellFormed x).2 (σ.wellFormed_apply (hs x t hx).2).2, datum_apply]
    rfl
  exact ⟨fun hm x t hx => (h hx).mp (hm x t hx), fun hm x t hx => (h hx).mpr (hm x t hx)⟩

end Assignment

/-- The substitutions that unifications of well-formed terms lead to. -/
inductive Substitution.Reached : Substitution → Prop
  | empty : Reached ∅
  | unify {n : Nat} {a b : Term} {s s' : Substitution} : Reached s → a.WellFormed → b.WellFormed →
    unify n a b s = some (some s') → Reached s'

theorem Substitution.Reached.walkable_all {s : Substitution} (h : s.Reached) :
    s.Walkable ∧ s.All Term.WellFormed := by
  induction h with
  | empty => exact ⟨walkable_empty, all_empty _⟩
  | unify _ ha hb h ih =>
    have hg := unify_grows Term.hereditary_wellFormed _ ih.1 ih.2 ha hb h
    exact ⟨hg.walkable ih.1, hg.all ih.2⟩

/-- What fails to unify has no model, what is unified has the models that it should have, and what has a model is
unified. -/
theorem unify_most_general {s : Substitution} (hs : s.Reached) {a b : Term} (ha : a.WellFormed) (hb : b.WellFormed) :
    (∀ n, unify n a b s = some none → ∀ σ : Assignment, σ.Models s → ¬ (σ.apply a).loose (σ.apply b) = true) ∧
    (∀ n s', unify n a b s = some (some s') → ∀ σ : Assignment,
      σ.Models s' ↔ σ.Models s ∧ (σ.apply a).loose (σ.apply b) = true) ∧
    ∀ σ : Assignment, σ.Models s → (σ.apply a).loose (σ.apply b) = true → ∃ n s', unify n a b s = some (some s') := by
  obtain ⟨hw, hall⟩ := hs.walkable_all
  refine ⟨?_, ?_, ?_⟩
  · intro n h σ hσ hab
    rw [σ.models_iff hall] at hσ
    rw [σ.loose_apply_iff ha hb] at hab
    exact (unify_exactBy σ.isProper_datum n hw hall ha hb h).mpr ⟨hσ, hab⟩
  · intro n s' h σ
    have hall' := (unify_grows Term.hereditary_wellFormed n hw hall ha hb h).all hall
    rw [σ.models_iff hall, σ.models_iff hall', σ.loose_apply_iff ha hb]
    exact unify_exactBy σ.isProper_datum n hw hall ha hb h
  · intro σ hσ hab
    rw [σ.models_iff hall] at hσ
    rw [σ.loose_apply_iff ha hb] at hab
    obtain ⟨s', h, -⟩ := unify_returnsBy σ.isProper_datum _ hw hall ha hb hσ hab (Nat.lt_succ_self _)
    exact ⟨_, s', h⟩

theorem unify_most_general_bound : ∃ s s',
    unify 1 (.var "X") (.text "1") ∅ = some (some s) ∧
    unify 3 (.pattern [.var "X"] (.var "T")) (.list [.text "1.0", .atom "a"]) s = some (some s') ∧
    ∀ σ : Assignment, σ.Models s' ↔ σ.Models s ∧
      (σ.apply (.pattern [.var "X"] (.var "T"))).loose (σ.apply (.list [.text "1.0", .atom "a"])) = true := by
  refine ⟨_, _, rfl, rfl, ?_⟩
  have hs : ((∅ : Substitution).bind "X" (.text "1")).Reached :=
    .unify (n := 1) (a := .var "X") (b := .text "1") .empty ⟨rfl, rfl⟩ ⟨rfl, rfl⟩ rfl
  exact (unify_most_general hs ⟨rfl, rfl⟩ ⟨rfl, rfl⟩).2.1 3 _ rfl

end BilingualLogic
